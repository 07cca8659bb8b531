import Mathlib.Data.List.Induction
import WorkflowEngine.Proofs.System.Writes

/-!
# Cancellations

An instance that has ended stays as it is, whoever still tries to write it. So of all cancellations
of an instance one succeeds at most, and every other one that is answered to its end is refused.
-/
namespace WorkflowEngine

/-- The instance that a request reads, and what it is answered. -/
def Request.loaded? : (r : Request) → r.Answer → Option (InstanceId × Outcome Instance)
  | .store (.load id), answer => some (id, answer)
  | _, _ => none

def Moment.loaded? (m : Moment) : Option (InstanceId × Outcome Instance) :=
  match m.incident with
  | .served c answer => c.request.loaded? answer
  | _ => none

theorem Replaces.isTerminal_eq_false {config : EngineConfig} {time : Instant → Instant}
    {h : List Moment} {i w : Instance} (hreplaces : Replaces config time h (some i) w) :
    i.isTerminal = false := by
  cases hreplaces with
  | changed _ hchange => exact hchange.isTerminal_eq_false

namespace System

variable {config : EngineConfig} {s s₀ s₁ : System} {m : Moment} {before after : List Moment}
  {id : InstanceId} {i : Instance}

theorem Along.find?_of_ended (hm : Along config s s₀ s₁ m) (hcounts : Counts s.history)
    (hi : s₀.engine.store.find? id = some i) (hended : i.isTerminal = true) :
    m.find? id = some i := by
  rw [← hm.find?_eq]
  rcases hm.step.written_cases hm.reachable (hm.counts hcounts).2 hm.history with
    ⟨-, hsame⟩ | ⟨w, hw, hreplaces, hputs⟩
  · rw [hsame, hi]
  · by_cases hid : id = w.id
    · rw [← hid, hi] at hreplaces
      have hlive := hreplaces.isTerminal_eq_false
      rw [hended] at hlive
      cases hlive
    · rw [hputs.elsewhere id hid, hi]

/-- An instance that has ended stays as it is. -/
theorem Reachable.find?_of_ended (hs : Reachable config s) (hcounts : Counts s.history)
    (hhistory : s.history = before ++ m :: after) (hi : m.find? id = some i)
    (hended : i.isTerminal = true) : ∀ x ∈ after, x.find? id = some i := by
  have hlast (between rest : List Moment) (hsplit : s.history = before ++ m :: between ++ rest) :
      lastStored id (before ++ m :: between) = some i := by
    induction between using List.reverseRecOn generalizing rest with
    | nil => rw [lastStored_append, hi]
    | append_singleton between x ih =>
      have hx : s.history = (before ++ m :: between) ++ x :: rest := by simp [hsplit]
      obtain ⟨s₀, s₁, halong, hbefore⟩ := hs.along hx
      have hcur := ih (x :: rest) hx
      rw [← hbefore, ← halong.reachable.find?_eq_lastStored] at hcur
      rw [← List.cons_append, ← List.append_assoc, lastStored_append]
      exact halong.find?_of_ended hcounts hcur hended
  intro x hx
  obtain ⟨between, rest, rfl⟩ := List.append_of_mem hx
  have hfound := hlast (between ++ [x]) rest (by simp [hhistory])
  rwa [← List.cons_append, ← List.append_assoc, lastStored_append] at hfound

/-- What is read is what was stored. -/
theorem Along.load_eq (hm : Along config s s₀ s₁ m) {answer : Outcome Instance}
    (hloaded : m.loaded? = some (id, answer)) : answer = s₀.engine.store.load id := by
  cases hincident : m.incident with
  | served c a =>
    obtain ⟨k, -, -, hanswer⟩ := hm.step.of_served hm.history hincident
    have hread : c.request.loaded? a = some (id, answer) := by
      rw [← hloaded, Moment.loaded?, hincident]
    clear hincident
    generalize c.request = r at a hanswer hread
    cases r with
    | store r =>
      cases r with
      | load =>
        obtain ⟨rfl, rfl⟩ := Prod.mk.inj (Option.some.inj hread)
        exact (Prod.mk.inj hanswer).1
      | create | save | claim | listDue | listStale | listForGraph => cases hread
    | append | invoke => cases hread
  | began | resumed | crashed | registered | unregistered | ticked =>
    simp [Moment.loaded?, hincident] at hloaded

end System

/-- A call began as a cancellation of an instance. -/
def Cancels (h : List Moment) (n : Nat) (id : InstanceId) : Prop :=
  ∃ m ∈ h, m.call = some n ∧ ∃ reason progress, m.incident = .began (.cancel id reason) progress

/-- A call has not written anything. -/
def Quiet (h : List Moment) (n : Nat) : Prop :=
  ∀ m ∈ h, m.call = some n → m.written? = none

/-- A call has written an instance as cancelled. -/
def CancelledBy (h : List Moment) (n : Nat) (id : InstanceId) (i : Instance) : Prop :=
  i.id = id ∧ i.status = .cancelled ∧ ∃ m ∈ h, m.call = some n ∧ m.written? = some i

/-- What a cancellation goes by: it has written nothing until it writes the instance as
cancelled. -/
def CancelStage.GoesBy (h : List Moment) (n : Nat) (id : InstanceId) : CancelStage → Prop
  | asking (.loading id' _) => id' = id ∧ Quiet h n
  | answered (.loading id' _) answer =>
    id' = id ∧ Quiet h n ∧
      (∀ i, answer = .ok i → i.id = id ∧ (i.isTerminal = true → lastStored id h = some i)) ∧
      ∀ e, answer = .error e →
        e = .instanceNotFound id ∧ ∃ m ∈ h, m.call = some n ∧ m.find? id = none
  | asking (.saving current _ _) => current.id = id ∧ Quiet h n
  | answered (.saving current _ _) answer =>
    current.id = id ∧ (∀ stored, answer = .ok stored → CancelledBy h n id stored) ∧
      ∀ e, answer = .error e → e.isConflict = true ∧ Quiet h n
  | asking (.recording stored _) | answered (.recording stored _) _ => CancelledBy h n id stored

section
variable {h : List Moment} {m : Moment} {n : Nat} {id : InstanceId} {i : Instance}

theorem Quiet.append (hquiet : Quiet h n) (hm : m.call = some n → m.written? = none) :
    Quiet (h ++ [m]) n := by
  intro m' hm' hcall
  rcases List.mem_append.mp hm' with hm' | hm'
  · exact hquiet m' hm' hcall
  · obtain rfl := List.mem_singleton.mp hm'
    exact hm hcall

theorem CancelledBy.append (hi : CancelledBy h n id i) (h' : List Moment) :
    CancelledBy (h ++ h') n id i := by
  obtain ⟨hid, hstatus, m, hm, hwrites⟩ := hi
  exact ⟨hid, hstatus, m, List.mem_append_left _ hm, hwrites⟩

theorem CancelStage.GoesBy.append {stage : CancelStage} (hstage : stage.GoesBy h n id)
    (hm : m.call = some n → m.written? = none)
    (hended : ∀ i, i.isTerminal = true → lastStored id h = some i → m.find? id = some i) :
    stage.GoesBy (h ++ [m]) n id := by
  cases stage with
  | asking c =>
    cases c with
    | loading => exact ⟨hstage.1, hstage.2.append hm⟩
    | saving => exact ⟨hstage.1, hstage.2.append hm⟩
    | recording => exact CancelledBy.append hstage _
  | answered c answer =>
    cases c with
    | loading id' reason =>
      obtain ⟨hid, hquiet, hok, herror⟩ := hstage
      refine ⟨hid, hquiet.append hm, fun i hi => ⟨(hok i hi).1, fun hterminal => ?_⟩,
        fun e he => ?_⟩
      · rw [lastStored_append]
        exact hended i hterminal ((hok i hi).2 hterminal)
      · obtain ⟨hnotFound, m', hm', hcall, hnone⟩ := herror e he
        exact ⟨hnotFound, m', List.mem_append_left _ hm', hcall, hnone⟩
    | saving current reason time =>
      obtain ⟨hid, hok, herror⟩ := hstage
      refine ⟨hid, fun stored hstored => (hok stored hstored).append _, fun e he => ?_⟩
      exact ⟨(herror e he).1, (herror e he).2.append hm⟩
    | recording => exact CancelledBy.append hstage _

/-- How a cancellation goes on from an answer, or ends. -/
theorem Cancel.goesBy_of_resume {env : Env} {c : Cancel} {answer : c.request.Answer}
    (hc : (CancelStage.answered c answer).GoesBy h n id) :
    (∀ c', c.resume env answer = .waiting c' → (CancelStage.asking c').GoesBy h n id) ∧
      (∀ i, c.resume env answer = .ended (.ok i) → CancelledBy h n id i) ∧
      ∀ e, c.resume env answer = .ended (.error e) → Quiet h n ∧
        ((∃ i, lastStored id h = some i ∧ i.isTerminal = true ∧
            e = .instanceTerminal id i.status.name) ∨
          e = .instanceNotFound id ∧ ∃ m ∈ h, m.call = some n ∧ m.find? id = none) := by
  cases c with
  | loading id' reason =>
    obtain ⟨rfl, hquiet, hok, herror⟩ := hc
    simp only [resume]
    split
    · rename_i i
      split
      · rename_i hterminal
        refine ⟨by simp, by simp, fun e he => ?_⟩
        cases he
        exact ⟨hquiet, .inl ⟨i, (hok i rfl).2 hterminal, hterminal, rfl⟩⟩
      · refine ⟨fun c' hc' => ?_, by simp, by simp⟩
        cases hc'
        exact ⟨(hok i rfl).1, hquiet⟩
    · rename_i error
      refine ⟨by simp, by simp, fun e he => ?_⟩
      cases he
      exact ⟨hquiet, .inr (herror error rfl)⟩
  | saving current reason time =>
    obtain ⟨rfl, hok, herror⟩ := hc
    simp only [resume]
    split
    · rename_i stored
      refine ⟨fun c' hc' => ?_, by simp, by simp⟩
      cases hc'
      exact hok stored rfl
    · rename_i error
      obtain ⟨hconflict, hquiet⟩ := herror error rfl
      rw [if_pos hconflict]
      refine ⟨fun c' hc' => ?_, by simp, by simp⟩
      cases hc'
      exact ⟨rfl, hquiet⟩
  | recording stored entry =>
    refine ⟨by simp [resume], fun i hi => ?_, by simp [resume]⟩
    cases hi
    exact hc

theorem Cancels.of_append (hcancels : Cancels (h ++ [m]) n id)
    (hm : m.call = some n → ∀ o progress, m.incident ≠ .began o progress) : Cancels h n id := by
  obtain ⟨m', hm', hcall, reason, progress, hbegan⟩ := hcancels
  rcases List.mem_append.mp hm' with hm' | hm'
  · exact ⟨m', hm', hcall, reason, progress, hbegan⟩
  · obtain rfl := List.mem_singleton.mp hm'
    exact absurd hbegan (hm hcall _ _)

end

namespace System

variable {config : EngineConfig} {s s₀ s₁ : System} {m : Moment} {n : Nat} {id : InstanceId}

theorem Along.cancel_append (hm : Along config s s₀ s₁ m) (hcounts : Counts s.history)
    {stage : CancelStage} (hwritten : m.call = some n → m.written? = none)
    (hstage : stage.GoesBy s₀.history n id) : stage.GoesBy s₁.history n id := by
  rw [hm.history]
  refine hstage.append hwritten fun i hended hi => ?_
  rw [← hm.reachable.find?_eq_lastStored] at hi
  exact hm.find?_of_ended hcounts hi hended

/-- A cancellation is answered with what is stored, and its write is refused only if the instance
has been written in between. -/
theorem Along.cancel_served (hm : Along config s s₀ s₁ m)
    (hcolumn : s.engine.store.isTable = true → TableStore.fits s.history.length) {c : Cancel}
    {answer : c.request.Answer} (hcall : m.call = some n)
    (hserved : m.incident = .served (.cancel c) answer)
    (hasks : s₀.calls n = some (.asking (.cancel c)))
    (hanswer : s₀.engine.Answers c.request answer s₁.engine)
    (hc : (CancelStage.asking c).GoesBy s₀.history n id) :
    (CancelStage.answered c answer).GoesBy s₁.history n id := by
  have hwritten : m.written? = c.request.written? answer := by
    rw [Moment.written?, hserved]
    rfl
  have hcounts := hm.reachable.counts (hm.column hcolumn)
  have hsound := hm.reachable.isSound hcounts
  rw [hm.history]
  cases c with
  | loading id' reason =>
    obtain ⟨rfl, hquiet⟩ := hc
    obtain ⟨hload, hsame⟩ := Prod.mk.inj (Engine.perform_of_answers hanswer)
    have hload : s₀.engine.store.load id' = answer := hload
    have hfind (id : InstanceId) : m.find? id = s₀.engine.store.find? id := by
      rw [← hm.find?_eq, ← hsame]
    refine ⟨rfl, hquiet.append fun _ => hwritten, fun i hi => ?_, fun e he => ?_⟩
    · have hfound := Store.find?_of_load (hload.trans hi)
      refine ⟨Instance.find?_id hfound, fun _ => ?_⟩
      rw [lastStored_append, hfind, hfound]
    · rw [Store.load_eq, he] at hload
      cases hfound : s₀.engine.store.find? id' with
      | none =>
        rw [hfound] at hload
        exact ⟨(Except.error.inj hload).symm, m, by simp, hcall, by rw [hfind, hfound]⟩
      | some i =>
        rw [hfound] at hload
        cases hload
  | saving current reason time =>
    obtain ⟨rfl, hquiet⟩ := hc
    have hcurrent : Cancel.IsSound s₀.engine.store.time s₀.history (.saving current reason time) :=
      hsound.calls n _ hasks
    refine ⟨rfl, fun stored hstored => ?_, fun e he => ?_⟩
    · cases hstored
      obtain ⟨-, rfl, -⟩ := hsound.lives.of_save hcounts hcurrent.1 (.cancelled hcurrent.2)
        (Engine.perform_of_answers hanswer)
      exact ⟨rfl, rfl, m, by simp, hcall, hwritten⟩
    · cases he
      have hid : (Cancel.cancelled current reason time).id = current.id := rfl
      have hrefused := hm.of_refused hcolumn hcurrent.1 hid (Engine.perform_of_answers hanswer)
      exact ⟨hrefused.1, hquiet.append fun _ => hwritten⟩
  | recording stored entry => exact CancelledBy.append hc _

/-- A call that began as a cancellation is one as long as it goes on. -/
theorem Reachable.cancel_goesBy (hs : Reachable config s)
    (hcolumn : s.engine.store.isTable = true → TableStore.fits s.history.length) {stage : Stage}
    (hn : s.calls n = some stage) (hcancels : Cancels s.history n id) :
    ∃ d, stage.cancel? = some d ∧ d.GoesBy s.history n id := by
  have hcounts := hs.counts hcolumn
  refine hs.of_stages (P := fun h n stage => Cancels h n id →
    ∃ d, stage.cancel? = some d ∧ d.GoesBy h n id) ?_ ?_ ?_ ?_ n stage hn hcancels
  · intro s₀ s₁ m o c hm hcall hbegan hstart hcancels
    rw [hm.history] at hcancels ⊢
    obtain ⟨x, hx, hxcall, reason, progress, hxbegan⟩ := hcancels
    rcases List.mem_append.mp hx with hx | hx
    · rw [hm.reachable.crashed_of_unbegun hx hxcall] at hxbegan
      cases hxbegan
    · obtain rfl := List.mem_singleton.mp hx
      rw [hbegan] at hxbegan
      cases hxbegan
      obtain rfl := Progress.waiting.inj hstart
      have hquiet : Quiet s₀.history s₀.begun := fun y hy hycall => by
        rw [Moment.written?, hm.reachable.crashed_of_unbegun hy hycall]
      refine ⟨_, rfl, rfl, hquiet.append fun _ => ?_⟩
      rw [Moment.written?, hbegan]
  · intro s₀ s₁ m n c answer hm hcall hserved hasks hanswer ih hcancels
    rw [hm.history] at hcancels
    obtain ⟨d, hd, hgoes⟩ := ih (hcancels.of_append fun _ o progress hbegan => by
      rw [hserved] at hbegan
      cases hbegan)
    cases c with
    | cancel c =>
      obtain rfl := Option.some.inj hd
      exact ⟨_, rfl, hm.cancel_served hcolumn hcall hserved hasks hanswer hgoes⟩
    | emit | dispatch | poll | run | sweep | pass => cases hd
  · intro s₀ s₁ m n c answer c' hm hcall hresumed _ hresume ih hcancels
    rw [hm.history] at hcancels
    obtain ⟨d, hd, hgoes⟩ := ih (hcancels.of_append fun _ o progress hbegan => by
      rw [hresumed] at hbegan
      cases hbegan)
    have hwritten : m.written? = none := by rw [Moment.written?, hresumed]
    cases c with
    | cancel c =>
      obtain rfl := Option.some.inj hd
      obtain ⟨c₁, hnext, rfl⟩ := Progress.of_map_eq_waiting hresume
      exact ⟨_, rfl, hm.cancel_append hcounts (fun _ => hwritten)
        ((Cancel.goesBy_of_resume hgoes).1 c₁ hnext)⟩
    | emit | dispatch | poll | run | sweep | pass => cases hd
  · intro s₀ s₁ m n stage hm hcall _ ih hcancels
    rw [hm.history] at hcancels
    obtain ⟨d, hd, hgoes⟩ := ih (hcancels.of_append fun hsame => absurd hsame hcall)
    exact ⟨d, hd, hm.cancel_append hcounts (fun hsame => absurd hsame hcall) hgoes⟩

/-- How a cancellation can end. -/
theorem Reachable.of_cancel_ended (hs : Reachable config s)
    (hcolumn : s.engine.store.isTable = true → TableStore.fits s.history.length)
    {before after : List Moment} {result : Outcome CallResult}
    (hhistory : s.history = before ++ m :: after) (hcall : m.call = some n)
    (hcancels : Cancels before n id) (hended : m.incident = .resumed (.ended result)) :
    (∀ r, result = .ok r → ∃ i, r = .left i ∧ CancelledBy before n id i) ∧
      ∀ e, result = .error e → Quiet before n ∧
        ((∃ i, lastStored id before = some i ∧ i.isTerminal = true ∧
            e = .instanceTerminal id i.status.name) ∨
          e = .instanceNotFound id ∧ ∃ x ∈ before, x.call = some n ∧ x.find? id = none) := by
  obtain ⟨s₀, s₁, hm, rfl⟩ := hs.along hhistory
  obtain ⟨k, c, answer, hk, hanswered, hresume, -⟩ := hm.step.of_resumed hm.history hended
  obtain rfl : k = n := Option.some.inj (hk.symm.trans hcall)
  obtain ⟨d, hd, hgoes⟩ := hm.reachable.cancel_goesBy (hm.column hcolumn) hanswered hcancels
  cases c with
  | cancel c =>
    obtain rfl := Option.some.inj hd
    obtain ⟨-, hok, herror⟩ := Cancel.goesBy_of_resume hgoes
    have hresume : (c.resume s₀.engine.env answer).map Call.cancel CallResult.left =
        .ended result := hresume.symm
    cases hprogress : c.resume s₀.engine.env answer with
    | waiting c' =>
      rw [hprogress] at hresume
      cases hresume
    | ended outcome =>
      rw [hprogress] at hresume
      cases outcome with
      | ok i =>
        cases hresume
        refine ⟨fun r hr => ?_, by simp⟩
        cases hr
        exact ⟨i, rfl, hok i hprogress⟩
      | error e =>
        cases hresume
        refine ⟨by simp, fun e' he' => ?_⟩
        cases he'
        exact herror e hprogress
  | emit | dispatch | poll | run | sweep | pass => cases hd

/-- A cancellation that comes too late is told so, at the latest when it reads the instance
again. -/
theorem Along.cancel_too_late (hm : Along config s s₀ s₁ m)
    (hcolumn : s.engine.store.isTable = true → TableStore.fits s.history.length) {c : Cancel}
    {answer : c.request.Answer} {i : Instance} (hcall : m.call = some n)
    (hcancels : Cancels s₀.history n id) (hserved : m.incident = .served (.cancel c) answer)
    (hi : s₀.engine.store.find? id = some i) (hended : i.isTerminal = true)
    (hquiet : Quiet s₀.history n) (env : Env) :
    c.resume env answer = .ended (.error (.instanceTerminal id i.status.name)) ∨
      (∃ current reason time, c = .saving current reason time) ∧
        ∃ reason, c.resume env answer = .waiting (.loading id reason) := by
  have hcounts := hm.reachable.counts (hm.column hcolumn)
  have hsound := hm.reachable.isSound hcounts
  obtain ⟨k, hk, hasks, hanswer⟩ := hm.step.of_served hm.history hserved
  obtain rfl : k = n := Option.some.inj (hk.symm.trans hcall)
  obtain ⟨d, hd, hgoes⟩ := hm.reachable.cancel_goesBy (hm.column hcolumn) hasks hcancels
  obtain rfl := Option.some.inj hd
  cases c with
  | loading id' reason =>
    obtain ⟨rfl, -⟩ := hgoes
    have hload : s₀.engine.store.load id' = answer :=
      (Prod.mk.inj (Engine.perform_of_answers hanswer)).1
    rw [Store.load_eq, hi] at hload
    subst hload
    exact .inl (by simp only [Cancel.resume, hended, if_true])
  | saving current reason time =>
    obtain ⟨rfl, -⟩ := hgoes
    have hcurrent : Cancel.IsSound s₀.engine.store.time s₀.history (.saving current reason time) :=
      hsound.calls k _ hasks
    refine .inr ⟨⟨current, reason, time, rfl⟩, reason, ?_⟩
    cases answer with
    | ok stored =>
      obtain ⟨hfound, -⟩ := hsound.lives.of_save hcounts hcurrent.1 (.cancelled hcurrent.2)
        (Engine.perform_of_answers hanswer)
      obtain rfl := Option.some.inj (hi.symm.trans hfound)
      have hlive : (current.kept s₀.engine.store.time).isTerminal = false := hcurrent.2
      rw [hended] at hlive
      cases hlive
    | error e =>
      have hid : (Cancel.cancelled current reason time).id = current.id := rfl
      have hrefused := hm.of_refused hcolumn hcurrent.1 hid (Engine.perform_of_answers hanswer)
      simp only [Cancel.resume, hrefused.1, if_true]
  | recording stored entry =>
    obtain ⟨-, -, x, hx, hxcall, hwrites⟩ := hgoes
    rw [hquiet x hx hxcall] at hwrites
    cases hwrites

end System

/-- What holds of all instances that have ended, and of all cancellations that come to an end. -/
structure EndsForGood (time : Instant → Instant) (h : List Moment) : Prop where
  final : ∀ before m after id i, h = before ++ m :: after → m.find? id = some i →
    i.isTerminal = true → ∀ x ∈ after, x.find? id = some i ∧
      ∀ answer, x.loaded? = some (id, answer) → answer = .ok i
  cancelled : ∀ before m after n id result, h = before ++ m :: after → m.call = some n →
    Cancels before n id → m.incident = .resumed (.ended (.ok result)) →
    ∃ i, result = .left i ∧ i.id = id ∧ i.status = .cancelled ∧
      ∀ x ∈ m :: after, x.find? id = some (i.kept time)
  once : ∀ before before' m m' after after' n n' id result result', h = before ++ m :: after →
    h = before' ++ m' :: after' → m.call = some n → m'.call = some n' → Cancels before n id →
    Cancels before' n' id → m.incident = .resumed (.ended (.ok result)) →
    m'.incident = .resumed (.ended (.ok result')) → n = n'
  refused : ∀ before m after n id e, h = before ++ m :: after → m.call = some n →
    Cancels before n id → m.incident = .resumed (.ended (.error e)) →
    (∀ first x rest, before = first ++ x :: rest → x.call = some n →
      ∀ id, x.find? id = lastStored id first) ∧
    ((∃ i, lastStored id before = some i ∧ i.isTerminal = true ∧
        e = .instanceTerminal id i.status.name) ∨
      e = .instanceNotFound id ∧ ∃ x ∈ before, x.call = some n ∧ x.find? id = none)
  tooLate : ∀ before m after n id i c answer, h = before ++ m :: after → m.call = some n →
    Cancels before n id → m.incident = .served (.cancel c) answer →
    lastStored id before = some i → i.isTerminal = true → Quiet before n → ∀ env,
    c.resume env answer = .ended (.error (.instanceTerminal id i.status.name)) ∨
      (∃ current reason time, c = .saving current reason time) ∧
        ∃ reason, c.resume env answer = .waiting (.loading id reason)

theorem CancelledBy.isTerminal {h : List Moment} {n : Nat} {id : InstanceId} {i : Instance}
    (hi : CancelledBy h n id i) : i.isTerminal = true := by
  rw [Instance.isTerminal, hi.2.1]
  rfl

namespace System

variable {config : EngineConfig} {s : System}

/-- An instance that was written as ended is not written again. -/
theorem Reachable.not_written_twice (hs : Reachable config s) (hcounts : Counts s.history)
    {before between after : List Moment} {w w' : Moment} {i i' : Instance}
    (hhistory : s.history = before ++ w :: between ++ w' :: after)
    (hw : w.written? = some i) (hended : i.isTerminal = true) (hw' : w'.written? = some i') :
    i'.id ≠ i.id := by
  intro hid
  have hsplit : s.history = before ++ w :: (between ++ w' :: after) := by simp [hhistory]
  have hfound := ((hs.written hcounts hsplit).1 i hw).2
  have hstays := hs.find?_of_ended hcounts hsplit hfound hended
  have hlast : lastStored i.id (before ++ w :: between) = some (i.kept s.engine.store.time) :=
    lastStored_of_stays hfound fun x hx => hstays x (List.mem_append_left _ hx)
  have hreplaces := ((hs.written hcounts hhistory).1 i' hw').1
  rw [hid, hlast] at hreplaces
  have hlive : i.isTerminal = false := hreplaces.isTerminal_eq_false
  rw [hended] at hlive
  cases hlive

theorem Reachable.endsForGood (hs : Reachable config s)
    (hcolumn : s.engine.store.isTable = true → TableStore.fits s.history.length) :
    EndsForGood s.engine.store.time s.history := by
  have hcounts := hs.counts hcolumn
  constructor
  · intro before m after id i hhistory hi hended x hx
    have hstays := hs.find?_of_ended hcounts hhistory hi hended
    refine ⟨hstays x hx, fun answer hloaded => ?_⟩
    obtain ⟨first, rest, rfl⟩ := List.append_of_mem hx
    have hsplit : s.history = (before ++ m :: first) ++ x :: rest := by simp [hhistory]
    obtain ⟨s₀, s₁, hm, hbefore⟩ := hs.along hsplit
    have hlast : lastStored id (before ++ m :: first) = some i :=
      lastStored_of_stays hi fun y hy => hstays y (List.mem_append_left _ hy)
    rw [← hbefore, ← hm.reachable.find?_eq_lastStored] at hlast
    rw [hm.load_eq hloaded, Store.load_eq, hlast]
  · intro before m after n id result hhistory hcall hcancels hended
    obtain ⟨hok, -⟩ := hs.of_cancel_ended hcolumn hhistory hcall hcancels hended
    obtain ⟨i, rfl, hi⟩ := hok result rfl
    have hterminal := hi.isTerminal
    obtain ⟨rfl, hstatus, w, hw, -, hwrites⟩ := hi
    obtain ⟨first, rest, rfl⟩ := List.append_of_mem hw
    have hsplit : s.history = first ++ w :: (rest ++ m :: after) := by simp [hhistory]
    have hfound := ((hs.written hcounts hsplit).1 i hwrites).2
    refine ⟨i, rfl, rfl, hstatus, fun x hx => ?_⟩
    exact hs.find?_of_ended hcounts hsplit hfound hterminal x (List.mem_append_right _ hx)
  · intro before before' m m' after after' n n' id result result' hhistory hhistory' hcall hcall'
      hcancels hcancels' hended hended'
    obtain ⟨i, -, hi⟩ := (hs.of_cancel_ended hcolumn hhistory hcall hcancels hended).1 result rfl
    obtain ⟨i', -, hi'⟩ :=
      (hs.of_cancel_ended hcolumn hhistory' hcall' hcancels' hended').1 result' rfl
    have hterminal := hi.isTerminal
    have hterminal' := hi'.isTerminal
    obtain ⟨hid, -, w, hw, hwcall, hwrites⟩ := hi
    obtain ⟨hid', -, w', hw', hwcall', hwrites'⟩ := hi'
    have hmem : w ∈ s.history := by simp [hhistory, hw]
    have hmem' : w' ∈ s.history := by simp [hhistory', hw']
    by_contra hne
    have hdifferent : w ≠ w' := by
      rintro rfl
      exact hne (Option.some.inj (hwcall.symm.trans hwcall'))
    rcases exists_split hmem hmem' hdifferent with ⟨first, between, last, hsplit⟩ |
      ⟨first, between, last, hsplit⟩
    · exact hs.not_written_twice hcounts hsplit hwrites hterminal hwrites' (hid'.trans hid.symm)
    · exact hs.not_written_twice hcounts hsplit hwrites' hterminal' hwrites (hid.trans hid'.symm)
  · intro before m after n id e hhistory hcall hcancels hended
    obtain ⟨-, herror⟩ := hs.of_cancel_ended hcolumn hhistory hcall hcancels hended
    obtain ⟨hquiet, hcause⟩ := herror e rfl
    refine ⟨fun first x rest hbefore hxcall id => ?_, hcause⟩
    have hsplit : s.history = first ++ x :: (rest ++ m :: after) := by simp [hhistory, hbefore]
    have hnone := hquiet x (by simp [hbefore]) hxcall
    exact (hs.written hcounts hsplit).2 id (by simp [hnone])
  · intro before m after n id i c answer hhistory hcall hcancels hserved hi hended hquiet env
    obtain ⟨s₀, s₁, hm, rfl⟩ := hs.along hhistory
    rw [← hm.reachable.find?_eq_lastStored] at hi
    exact hm.cancel_too_late hcolumn hcall hcancels hserved hi hended hquiet env

end System

namespace Sample

def cancelled : Instance :=
  { asleep with
    status := .cancelled
    resumeAt := none
    updatedAt := clock 60
    completedAt := some (clock 60)
    version := .count 4 }

theorem alone_cancel_asleep :
    Alone (keeping 60 asleep) (.cancel (.loading "i1" none)) (keeping 60 cancelled) := by
  refine .goesOn (.ok asleep) rfl rfl ?_
  refine .goesOn (.ok cancelled) rfl rfl ?_
  exact .ends () (.inl rfl) rfl

theorem alone_cancel_cancelled :
    Alone (keeping 60 cancelled) (.cancel (.loading "i1" none)) (keeping 60 cancelled) :=
  .ends (.ok cancelled) rfl rfl

/-- In some run the sleeping instance is cancelled, and cancelled once more in vain. -/
theorem exists_endsForGood : ∃ s, System.Reachable default s ∧
    (s.engine.store.isTable = true → TableStore.fits s.history.length) ∧
    s.engine.store.find? "i1" = some cancelled ∧ EndsForGood s.engine.store.time s.history := by
  obtain ⟨s, hs, he, -, -⟩ := exists_asleep
  obtain ⟨s₁, hs₁, he₁, -, -⟩ := hs.alone (o := .cancel "i1" none) rfl (he ▸ alone_cancel_asleep)
  obtain ⟨s₂, hs₂, he₂, -, -⟩ :=
    hs₁.alone (o := .cancel "i1" none) rfl (he₁ ▸ alone_cancel_cancelled)
  have hcolumn : s₂.engine.store.isTable = true → TableStore.fits s₂.history.length := by
    simp [he₂, he₁, keeping, engine, Store.isTable]
  have hfound : s₂.engine.store.find? "i1" = some cancelled := by
    rw [he₂, he₁]
    rfl
  exact ⟨s₂, hs₂, hcolumn, hfound, hs₂.endsForGood hcolumn⟩

end Sample
end WorkflowEngine
