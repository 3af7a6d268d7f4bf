import Haystack.Stages
import Haystack.Calls.Assertion

/-! A deleted photo under concurrency, on one web server. A get writes to redis
what it has read from the directory before, so the two sides of a delete can slip
in between. When no fill and no insert of the pid comes at the wrong moment, a
deleted photo stays deleted. -/
namespace Haystack

open Calls Cql Java

variable {config : HSConfig} {charset : Charset} {schema : Schema} {server : Nat} {pid : String}

def PastEviction (server : Nat) (pid : String) (t : Job) : Prop :=
  t.request = .webDelete server pid ∧ t.rest.running = true ∧ 1 ≤ t.calls

def Filling (server : Nat) (pid : String) (t : Job) : Prop :=
  t.request = .webGet server pid ∧ t.rest.running = true ∧ t.calls = 2

def Dropping (server : Nat) (pid : String) (t : Job) : Prop :=
  t.request = .webDelete server pid ∧ t.rest.running = true ∧ t.calls = 2

def Request.Assigns (pid : String) : Request → Prop
  | .upload _ (some _) t => toString t = pid
  | _ => False

def Entering (pid : String) (t : Job) : Prop :=
  t.request.Assigns pid ∧ t.rest.running = true ∧ t.calls ≤ 1

instance (server : Nat) (pid : String) : DecidablePred (PastEviction server pid) :=
  fun _ => inferInstanceAs (Decidable (_ ∧ _ ∧ _))
instance (server : Nat) (pid : String) : DecidablePred (Filling server pid) :=
  fun _ => inferInstanceAs (Decidable (_ ∧ _ ∧ _))
instance (server : Nat) (pid : String) : DecidablePred (Dropping server pid) :=
  fun _ => inferInstanceAs (Decidable (_ ∧ _ ∧ _))
instance (pid : String) : DecidablePred (Request.Assigns pid)
  | .upload _ (some _) t => inferInstanceAs (Decidable (toString t = pid))
  | .upload _ none _ => inferInstanceAs (Decidable False)
  | .webGet _ _ => inferInstanceAs (Decidable False)
  | .webDelete _ _ => inferInstanceAs (Decidable False)
  | .cacheGet _ _ _ => inferInstanceAs (Decidable False)
  | .cacheDelete _ _ => inferInstanceAs (Decidable False)
instance (pid : String) : DecidablePred (Entering pid) :=
  fun _ => inferInstanceAs (Decidable (_ ∧ _ ∧ _))

/-- Redis is filled for the pid only while its row exists and no delete of it is past
its eviction, and the row is deleted only when no upload with the pid has yet to
insert it. -/
def System.Careful (server : Nat) (pid : String) (p : System) : Happening → Prop
  | .step i => ∀ t ∈ p.threads[i]?,
    (Filling server pid t → p.state.photo pid ≠ none ∧
      ∀ u ∈ p.threads, ¬ PastEviction server pid u) ∧
    (Dropping server pid t → ∀ u ∈ p.threads, ¬ Entering pid u)
  | _ => True

instance (server : Nat) (pid : String) (p : System) : DecidablePred (p.Careful server pid)
  | .start _ => inferInstanceAs (Decidable True)
  | .step _ => inferInstanceAs (Decidable (∀ _ ∈ _, _))
  | .abort _ _ _ => inferInstanceAs (Decidable True)

/-- Each thread is at one of its stages, and redis is empty during a delete. -/
structure System.Guarded (config : HSConfig) (schema : Schema) (server : Nat) (pid : String)
    (p : System) : Prop where
  fits : p.state.Fits schema
  keyed : p.state.photo "" = none
  staged : ∀ t ∈ p.threads, t.request.Local server ∧ t.request.Stage config t.calls t.rest
  evicted : (∃ t ∈ p.threads, PastEviction server pid t) → p.state.redis server pid = none

structure System.Gone (server : Nat) (pid : String) (p : System) : Prop where
  photo : p.state.photo pid = none
  redis : p.state.redis server pid = none
  entering : ∀ t ∈ p.threads, ¬ Entering pid t

section Advance

variable {p : System} {i : Nat} {t u : Job} {s : World} {rest : Handler Resp}

theorem mem_advance (member : u ∈ (p.advance i t s rest).threads) :
    u = ⟨t.request, t.calls + 1, rest⟩ ∨ u ∈ p.threads := by
  obtain ⟨j, found⟩ := List.mem_iff_getElem?.mp member
  rcases Pool.advance_found found with ⟨_, same⟩ | ⟨_, other⟩
  · exact .inl same
  · exact .inr (List.mem_of_getElem? other)

theorem running_of_step {p' : Handler Resp} {q : Handler Resp} {s' : World}
    (step : q.Step exec s p' s') : q.running = true := by
  cases step <;> rfl

theorem pastEviction_advance (active : t.rest.running = true) (found : p.threads[i]? = some t)
    (member : u ∈ (p.advance i t s rest).threads) (past : PastEviction server pid u) :
    (∃ v ∈ p.threads, PastEviction server pid v) ∨
      (t.request = .webDelete server pid ∧ t.calls = 0) := by
  rcases mem_advance member with rfl | old
  · rcases Nat.eq_zero_or_pos t.calls with start | later
    · exact .inr ⟨past.1, start⟩
    · exact .inl ⟨t, List.mem_of_getElem? found, past.1, active, later⟩
  · exact .inl ⟨u, old, past⟩

theorem entering_advance (active : t.rest.running = true) (found : p.threads[i]? = some t)
    (member : u ∈ (p.advance i t s rest).threads) (entering : Entering pid u) :
    ∃ v ∈ p.threads, Entering pid v := by
  rcases mem_advance member with rfl | old
  · have early := entering.2.2
    dsimp only at early
    exact ⟨t, List.mem_of_getElem? found, entering.1, active, by omega⟩
  · exact ⟨u, old, entering⟩

end Advance

theorem Request.Effect.redis_none {r : Request} {n : Nat} {s s' : World} (effect : r.Effect n s s')
    (here : r.Local server) (filling : ¬ (r = .webGet server pid ∧ n = 2))
    (empty : s.redis server pid = none ∨ (r = .webDelete server pid ∧ n = 0)) :
    s'.redis server pid = none := by
  cases effect with
  | look looks =>
    rcases empty with empty | ⟨rfl, rfl⟩
    · exact empty
    · cases looks
  | @fill w q s info =>
    obtain rfl : w = server := here.1
    have other : pid ≠ q := fun same => filling ⟨by rw [same], rfl⟩
    rw [World.redis_setRedis, if_neg (fun h => other h.2)]
    exact empty.resolve_right (fun start => by cases start.1)
  | @evict w q s =>
    rw [World.redis_setRedis]
    split
    · rfl
    · rename_i differ
      refine empty.resolve_right (fun start => differ ?_)
      cases start.1
      exact ⟨rfl, rfl⟩
  | drop => exact empty.resolve_right (fun start => by cases start.2)
  | enter info => exact empty.resolve_right (fun start => by cases start.1)
  | store k => exact empty.resolve_right (fun start => by cases start.1)

theorem Request.Effect.photo_none {r : Request} {n : Nat} {s s' : World} (effect : r.Effect n s s')
    (photos : s.HasPhotos)
    (entering : ¬ (r.Assigns pid ∧ n ≤ 1))
    (empty : s.photo pid = none) : s'.photo pid = none := by
  cases effect with
  | look => exact empty
  | fill info => exact empty
  | evict => exact empty
  | drop =>
    rw [World.photo_setPhoto photos]
    split
    · rfl
    · exact empty
  | @enter w b u s info =>
    have other : pid ≠ toString u := fun same => entering ⟨same.symm, Nat.le_refl 1⟩
    rw [World.photo_setPhoto photos, if_neg other]
    exact empty
  | store k => exact empty

theorem System.Guarded.step {p q : System} {i : Nat} (guarded : p.Guarded config schema server pid)
    (careful : p.Careful server pid (.step i))
    (taken : Pool.Next exec (handler config charset) p (.step i) q) :
    q.Guarded config schema server pid ∧ ∃ t s rest, p.threads[i]? = some t ∧
      t.rest.Step exec p.state rest s ∧ q = p.advance i t s rest ∧
      t.request.Local server ∧ t.request.Stage config (t.calls + 1) rest ∧
      t.request.Effect t.calls p.state s := by
  obtain ⟨t, s, rest, found, step, rfl⟩ := Pool.next_step_cases exec (handler config charset) taken
  have member := List.mem_of_getElem? found
  obtain ⟨here, stage⟩ := guarded.staged t member
  have active := running_of_step step
  obtain ⟨stage', effect⟩ := Request.stage_step here guarded.fits guarded.keyed stage step
  refine ⟨⟨effect.fits guarded.fits, effect.keyed guarded.fits.photos guarded.keyed, ?_, ?_⟩,
    t, s, rest, found, step, rfl, here, stage', effect⟩
  · intro u listed
    rcases mem_advance listed with rfl | old
    · exact ⟨here, stage'⟩
    · exact guarded.staged u old
  · rintro ⟨u, listed, past⟩
    have before := pastEviction_advance active found listed past
    apply effect.redis_none here _ (before.imp guarded.evicted id)
    rintro ⟨get, second⟩
    rcases before with ⟨v, old, past'⟩ | ⟨delete, _⟩
    · exact ((careful t found).1 ⟨get, active, second⟩).2 v old past'
    · rw [get] at delete
      cases delete

theorem System.Guarded.start {p q : System} {r : Request}
    (guarded : p.Guarded config schema server pid)
    (here : r.Local server) (taken : Pool.Next exec (handler config charset) p (.start r) q) :
    q.Guarded config schema server pid := by
  cases taken
  refine ⟨guarded.fits, guarded.keyed, ?_, ?_⟩
  · intro t listed
    rcases List.mem_append.mp listed with old | new
    · exact guarded.staged t old
    · cases List.mem_singleton.mp new
      exact ⟨here, Request.stage_start config charset here⟩
  · rintro ⟨t, listed, past⟩
    rcases List.mem_append.mp listed with old | new
    · exact guarded.evicted ⟨t, old, past⟩
    · cases List.mem_singleton.mp new
      cases past.2.2

theorem System.Gone.step {p q : System} {i : Nat} (guarded : p.Guarded config schema server pid)
    (gone : p.Gone server pid) (careful : p.Careful server pid (.step i))
    (taken : Pool.Next exec (handler config charset) p (.step i) q) : q.Gone server pid := by
  obtain ⟨_, t, s, rest, found, step, rfl, here, _, effect⟩ := guarded.step careful taken
  have active := running_of_step step
  have member := List.mem_of_getElem? found
  refine ⟨?_, ?_, ?_⟩
  · apply effect.photo_none guarded.fits.photos _ gone.photo
    exact fun entering => gone.entering t member ⟨entering.1, active, entering.2⟩
  · apply effect.redis_none here _ (.inl gone.redis)
    exact fun filling => ((careful t found).1 ⟨filling.1, active, filling.2⟩).1 gone.photo
  · intro u listed entering
    obtain ⟨v, old, entering'⟩ := entering_advance active found listed entering
    exact gone.entering v old entering'

theorem System.Gone.start {p q : System} {r : Request} (gone : p.Gone server pid)
    (other : ¬ r.Assigns pid) (taken : Pool.Next exec (handler config charset) p (.start r) q) :
    q.Gone server pid := by
  cases taken
  refine ⟨gone.photo, gone.redis, ?_⟩
  intro t listed entering
  rcases List.mem_append.mp listed with old | new
  · exact gone.entering t old entering
  · cases List.mem_singleton.mp new
    exact other entering.1

theorem System.Guarded.deleted {p q : System} {i : Nat} {t : Job}
    (guarded : p.Guarded config schema server pid) (careful : p.Careful server pid (.step i))
    (taken : Pool.Next exec (handler config charset) p (.step i) q)
    (found : q.threads[i]? = some t) (asked : t.request = .webDelete server pid)
    (replied : t.rest.outcome = some (.ok (.result 200 "Image deleted."))) :
    q.Gone server pid ∧ pid ≠ "" := by
  obtain ⟨_, t₀, s, rest, found₀, step, rfl, here, stage, effect⟩ := guarded.step careful taken
  have active := running_of_step step
  have member := List.mem_of_getElem? found₀
  rcases Pool.advance_found found with ⟨_, rfl⟩ | ⟨differ, _⟩
  swap
  · exact absurd rfl differ
  have stage₀ := (guarded.staged t₀ member).2
  obtain ⟨request, calls, rest₀⟩ := t₀
  dsimp only at asked replied stage stage₀ effect active step
  subst asked
  have second : calls = 2 := by
    match calls with
    | 0 =>
      cases (stage : rest = _)
      cases replied
    | 1 =>
      rcases stage with ⟨rfl, _⟩ | rfl <;> cases replied
    | 2 => rfl
    | n + 3 => simp [Request.Stage] at stage
  subst second
  have named : pid ≠ "" := by
    rcases stage₀ with ⟨_, named⟩ | rfl
    · exact named
    · cases step
  have empty := guarded.evicted ⟨_, member, rfl, active, Nat.le_succ 1⟩
  cases effect with
  | look looks => cases looks
  | drop =>
    refine ⟨⟨?_, empty, ?_⟩, named⟩
    · change (p.state.setPhoto pid none).photo pid = none
      rw [World.photo_setPhoto guarded.fits.photos]
      simp
    · intro u listed entering
      obtain ⟨v, old, entering'⟩ := entering_advance active found₀ listed entering
      exact (careful _ found₀).2 ⟨rfl, active, rfl⟩ v old entering'

def World.Absent (schema : Schema) (server : Nat) (pid : String) (s : World) : Prop :=
  s.Fits schema ∧ s.photo pid = none ∧ s.redis server pid = none

theorem onGetImage_absent (plain : Plain pid) (named : pid ≠ "") (s : World) :
    (WebServer.onGetImage server pid).Holds (.ofInvariant (World.Absent schema server pid)) exec
      (fun r _ => r = .ok (.result 404 "PID does not exist.")) s := by
  have kept : ∀ t, (Discipline.ofInvariant (World.Absent schema server pid)).invariant t →
      t.Fits schema := fun _ absent => absent.1
  refine WebServer.onGetImage_holds plain kept ?_ ?_ ?_ ?_
  · exact fun empty => absurd empty named
  · intro _ t _ absent url hit
    rw [absent.2.2] at hit
    contradiction
  · exact fun _ t _ _ _ u _ _ => rfl
  · intro _ t _ absent info row
    cases absent.2.1.symm.trans row

/-- What holds of every get of the pid that was started with the n-th thread or later. -/
def System.GetsAnswer404 (schema : Schema) (server : Nat) (pid : String) (n : Nat)
    (p : System) : Prop :=
  ∀ (j : Nat) (t : Job), n ≤ j → p.threads[j]? = some t → t.request = .webGet server pid →
    t.rest.Holds (.ofInvariant (World.Absent schema server pid)) exec
      (fun r _ => r = .ok (.result 404 "PID does not exist.")) p.state

theorem System.GetsAnswer404.step {p q : System} {i n : Nat}
    (answers : p.GetsAnswer404 schema server pid n) (absent : p.state.Absent schema server pid)
    (taken : Pool.Next exec (handler config charset) p (.step i) q) :
    q.GetsAnswer404 schema server pid n := by
  obtain ⟨t, s, rest, found, step, rfl⟩ := Pool.next_step_cases exec (handler config charset) taken
  intro j u later present asked
  rcases Pool.advance_found present with ⟨rfl, rfl⟩ | ⟨_, other⟩
  · exact ((answers j t later found asked).step absent step).2
  · exact (answers j u later other asked).later trivial

theorem System.GetsAnswer404.start {p q : System} {r : Request} {n : Nat} (named : pid ≠ "")
    (here : r.Local server) (answers : p.GetsAnswer404 schema server pid n)
    (taken : Pool.Next exec (handler config charset) p (.start r) q) :
    q.GetsAnswer404 schema server pid n := by
  cases taken
  intro j u later present asked
  rcases Pool.start_found (handler config charset) present with ⟨_, rfl⟩ | old
  · cases (asked : r = _)
    exact onGetImage_absent here.2 named p.state
  · exact answers j u later old asked

/-- A deleted photo stays deleted in every run whose steps all meet the condition. -/
theorem deleted_stays_deleted {s : World} {before after : List Happening} {p₀ p₁ p₂ : System}
    {i : Nat} {t : Job} (fits : s.Fits schema) (keyed : s.photo "" = none)
    (unfailing : ∀ e ∈ before ++ .step i :: after, e.unfailing = true)
    (here : ∀ r ∈ started (before ++ .step i :: after), r.Local server)
    (reached : (System.idle s).after config charset before = some p₀)
    (step : p₀.after config charset [.step i] = some p₁)
    (continued : p₁.after config charset after = some p₂)
    (found : p₁.threads[i]? = some t) (asked : t.request = .webDelete server pid)
    (replied : t.rest.outcome = some (.ok (.result 200 "Image deleted.")))
    (unassigned : ∀ r ∈ started after, ¬ r.Assigns pid)
    (careful : Pool.Along exec (handler config charset) (System.Careful server pid) (System.idle s)
      (before ++ .step i :: after))
    {j : Nat} {get : Job} (later : p₁.threads.length ≤ j) (present : p₂.threads[j]? = some get)
    (reading : get.request = .webGet server pid) :
    get.Ends 3 (.ok (.result 404 "PID does not exist.")) := by
  have initial : (System.idle s).Guarded config schema server pid :=
    ⟨fits, keyed, by simp [System.idle], by simp [System.idle]⟩
  obtain ⟨careful₀, careful₁⟩ := Pool.along_append exec (handler config charset) careful reached
  have guarded₀ : p₀.Guarded config schema server pid := by
    apply Pool.along_induction exec (handler config charset) initial careful₀ _ reached
    intro p e q member now guarded taken
    cases e with
    | start r =>
      exact guarded.start (here r (mem_started.mpr (List.mem_append_left _ member))) taken
    | step k => exact (guarded.step now taken).1
    | abort k applied e => cases unfailing _ (List.mem_append_left _ member)
  have next : p₀.next exec (handler config charset) (.step i) = some p₁ := by
    simpa [System.after, Pool.runs] using step
  have taken := Pool.next_cases exec (handler config charset) next
  simp only [Pool.Along, next] at careful₁
  obtain ⟨now, careful₂⟩ := careful₁
  have guarded₁ := (guarded₀.step now taken).1
  obtain ⟨gone₁, named⟩ := guarded₀.deleted now taken found asked replied
  have fresh : p₁.GetsAnswer404 schema server pid p₁.threads.length := by
    intro k u late there
    have bound := (List.getElem?_eq_some_iff.mp there).1
    omega
  have final : p₂.Guarded config schema server pid ∧ p₂.Gone server pid ∧
      p₂.GetsAnswer404 schema server pid p₁.threads.length := by
    apply Pool.along_induction exec (handler config charset)
      (motive := fun p => System.Guarded config schema server pid p ∧ System.Gone server pid p ∧
        System.GetsAnswer404 schema server pid p₁.threads.length p)
      ⟨guarded₁, gone₁, fresh⟩ careful₂ _ continued
    rintro p e q member now ⟨guarded, gone, answers⟩ taken
    have inside : e ∈ before ++ .step i :: after := by simp [member]
    cases e with
    | start r =>
      have local' := here r (mem_started.mpr inside)
      have other := unassigned r (mem_started.mpr member)
      exact ⟨guarded.start local' taken, gone.start other taken, answers.start named local' taken⟩
    | step k =>
      have absent : p.state.Absent schema server pid := ⟨guarded.fits, gone.photo, gone.redis⟩
      exact ⟨(guarded.step now taken).1, gone.step guarded now taken, answers.step absent taken⟩
    | abort k applied e => cases unfailing _ inside
  have run : (System.idle s).after config charset (before ++ .step i :: after) = some p₂ := by
    simp only [System.after] at reached step continued ⊢
    rw [Pool.runs_append, reached, Option.bind_some, ← List.singleton_append,
      Pool.runs_append, step]
    exact continued
  have bounded := Pool.bounded_runs (handler_within config charset) run
  have absent : p₂.state.Absent schema server pid :=
    ⟨final.1.fits, final.2.1.photo, final.2.1.redis⟩
  have ends : get.Ends get.request.bound (.ok (.result 404 "PID does not exist.")) :=
    bounded.ends present
      (fun x ended => (final.2.2 j get later present reading).outcome absent ended)
  rw [reading] at ends
  exact ends

def getOvertaken : List Happening :=
  [.start (.upload 0 (some [1]) 7), .step 0, .step 0, .step 0, .step 0,
    .start (.webGet 0 "7"), .step 1, .step 1, .start (.webDelete 0 "7"), .step 2, .step 2, .step 2]

def getResumed : List Happening := [.step 1, .start (.webGet 0 "7"), .step 3]

theorem deleted_photo_returns : ∃ p q : System,
    (System.idle .shipped).after .shipped .utf8 getOvertaken = some p ∧
    p.after .shipped .utf8 getResumed = some q ∧
    (∀ r ∈ started (getOvertaken ++ getResumed), r.Local 0) ∧
    (∀ r ∈ started getResumed, ¬ r.Assigns "7") ∧
    p.outcomes[2]? = some (.webDelete 0 "7", some (.ok (.result 200 "Image deleted."))) ∧
    p.outcomes.length = 3 ∧
    q.outcomes[3]? = some (.webGet 0 "7", some (.ok (.redirect
      "http://unix5.andrew.cmu.edu:9876/get?lvid=2&pid=7"))) := by
  have evaluated : ((System.idle .shipped).after .shipped .utf8 getOvertaken).bind
      (fun p => (p.after .shipped .utf8 getResumed).map (fun q => decide (
        p.outcomes[2]? = some (.webDelete 0 "7", some (.ok (.result 200 "Image deleted."))) ∧
        p.outcomes.length = 3 ∧ q.outcomes[3]? = some (.webGet 0 "7", some (.ok (.redirect
          "http://unix5.andrew.cmu.edu:9876/get?lvid=2&pid=7")))))) = some true := by decide +kernel
  have here : ∀ r ∈ started (getOvertaken ++ getResumed), r.Local 0 := by decide +kernel
  obtain ⟨p, reached, later⟩ := Option.bind_eq_some_iff.mp evaluated
  obtain ⟨q, continued, seen⟩ := Option.map_eq_some_iff.mp later
  obtain ⟨deleted, count, redirected⟩ := of_decide_eq_true seen
  exact ⟨p, q, reached, continued, here, by decide, deleted, count, redirected⟩

def getBeforeDelete : List Happening :=
  [.start (.upload 0 (some [1]) 7), .step 0, .step 0, .step 0, .step 0, .start (.webGet 0 "7"),
    .start (.webDelete 0 "7"), .step 1, .step 1, .step 1, .step 2, .step 2]

def getAfterDelete : List Happening := [.start (.webGet 0 "7"), .step 3, .step 3]

theorem deleted_stays_deleted_overlapping : ∃ p q : System, ∃ get : Job,
    (System.idle .shipped).after .shipped .utf8 (getBeforeDelete ++ [.step 2]) = some p ∧
    p.after .shipped .utf8 getAfterDelete = some q ∧ q.threads[3]? = some get ∧
    get.Ends 3 (.ok (.result 404 "PID does not exist.")) := by
  have evaluated : ((System.idle .shipped).after .shipped .utf8 getBeforeDelete).bind
        (fun p₀ => (p₀.after .shipped .utf8 [.step 2]).bind
          (fun p => (p.after .shipped .utf8 getAfterDelete).map (fun q => decide (
            p.outcomes[2]? = some (.webDelete 0 "7", some (.ok (.result 200 "Image deleted."))) ∧
            p.outcomes.length = 3 ∧ (q.outcomes[3]?).map Prod.fst = some (.webGet 0 "7"))))) =
              some true ∧
      Pool.Along exec (handler .shipped .utf8) (System.Careful 0 "7") (System.idle .shipped)
        (getBeforeDelete ++ .step 2 :: getAfterDelete) ∧
      ∀ r ∈ started (getBeforeDelete ++ .step 2 :: getAfterDelete), r.Local 0 := by decide +kernel
  obtain ⟨whole, careful, here⟩ := evaluated
  have fits := World.fits_schema World.ready_shipped.photos World.ready_shipped.storeInfo
  obtain ⟨p₀, reached, rest⟩ := Option.bind_eq_some_iff.mp whole
  obtain ⟨p, step, later⟩ := Option.bind_eq_some_iff.mp rest
  obtain ⟨q, continued, seen⟩ := Option.map_eq_some_iff.mp later
  obtain ⟨deleted, count, answer⟩ := of_decide_eq_true seen
  obtain ⟨t, found, asked, done⟩ := System.outcomes_found deleted
  obtain ⟨⟨request, outcome⟩, listed, rfl⟩ := Option.map_eq_some_iff.mp answer
  obtain ⟨get, present, reading, _⟩ := System.outcomes_found listed
  refine ⟨p, q, get, ?_, continued, present, ?_⟩
  · simp only [System.after] at reached step ⊢
    rw [Pool.runs_append, reached]
    exact step
  · have early : p.threads.length ≤ 3 := by simpa [System.outcomes] using Nat.le_of_eq count
    exact deleted_stays_deleted fits rfl (by decide) here reached step continued found asked done
      (by decide) careful early present reading

end Haystack
