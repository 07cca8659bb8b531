import WorkflowEngine.Proofs.System.Premises

/-!
# Tours

A poll and a sweep go through the instances that they have listed and ask for a write of each. When
nothing but the clock disturbs such a tour, it writes every instance that it has listed and no
other, and returns their identifiers in the order of the listing.
-/
namespace WorkflowEngine

/-- A call is served to its end, with a result. In the meantime the clock may be set, and nothing
else happens to the engine. -/
inductive Undisturbed : Engine → Call → Outcome CallResult → Engine → Prop where
  | ends {e e' : Engine} {c : Call} {result : Outcome CallResult} (answer : c.request.Answer)
      (hanswer : e.Answers c.request answer e') (hresume : c.resume e'.env answer = .ended result) :
      Undisturbed e c result e'
  | goesOn {e e' e'' : Engine} {c c' : Call} {result : Outcome CallResult}
      (answer : c.request.Answer) (hanswer : e.Answers c.request answer e')
      (hresume : c.resume e'.env answer = .waiting c') (hrest : Undisturbed e' c' result e'') :
      Undisturbed e c result e''
  | ticks {e e' : Engine} {c : Call} {result : Outcome CallResult} (now : Instant)
      (hrest : Undisturbed { e with now } c result e') : Undisturbed e c result e'

/-- What a call leads to that has come so far, if it goes on undisturbed. -/
def Progress.LeadsTo (e : Engine) (result : Outcome CallResult) (e' : Engine) :
    Progress Call CallResult → Prop
  | waiting c => Undisturbed e c result e'
  | ended r => result = r ∧ e' = e

section
variable {e e' e'' : Engine} {c : Call} {result : Outcome CallResult}

theorem Undisturbed.of_answers {answer : c.request.Answer}
    (hanswer : e.Answers c.request answer e')
    (hleads : (c.resume e'.env answer).LeadsTo e' result e'') : Undisturbed e c result e'' := by
  cases hresume : c.resume e'.env answer with
  | waiting c' =>
    rw [hresume] at hleads
    exact .goesOn answer hanswer hresume hleads
  | ended r =>
    rw [hresume] at hleads
    obtain ⟨rfl, rfl⟩ := hleads
    exact .ends answer hanswer hresume

/-- At some time the request of the call is answered, and then the call goes on or has ended. -/
theorem Undisturbed.answered (h : Undisturbed e c result e'') : ∃ now answer e',
    ({ e with now } : Engine).Answers c.request answer e' ∧
      (c.resume e'.env answer).LeadsTo e' result e'' := by
  induction h with
  | @ends e e' c result answer hanswer hresume =>
    exact ⟨e.now, answer, e', hanswer, by rw [hresume]; exact ⟨rfl, rfl⟩⟩
  | @goesOn e e' e'' c c' result answer hanswer hresume hrest =>
    exact ⟨e.now, answer, e', hanswer, by rw [hresume]; exact hrest⟩
  | ticks now hrest ih => exact ih

end

/-- A store after instances were written in their places. -/
structure Store.Rewritten (s : Store) (write : Instance → Instance) (items : List Instance)
    (s' : Store) : Prop where
  wellFormed : s'.WellFormed
  isTable : s'.isTable = s.isTable
  here : ∀ i ∈ items, ∃ now, s'.find? i.id = some ((write i).stamped i.version.next now)
  elsewhere : ∀ id, id ∉ items.map (·.id) → s'.find? id = s.find? id

/-- A call goes through instances. It asks for a write of each, which succeeds where the instance is
stored as it was listed and can be written, and goes on with the next. -/
structure Tours (isTable : Bool) (ready : Instance → Prop) (write : Instance → Instance)
    (goOn : List Instance → List InstanceId → Progress Call CallResult) : Prop where
  id_eq : ∀ i, (write i).id = i.id
  kept_eq : ∀ time i, Instance.kept time i = i → (write i).kept time = write i
  ended : ∀ done, goOn [] done = .ended (.ok (.listed done))
  asks : ∀ i rest done, ∃ c, goOn (i :: rest) done = .waiting c ∧ ∀ e : Engine,
    e.store.WellFormed → e.store.isTable = isTable → e.store.find? i.id = some i → ready i →
      (∃ answer e', e.Answers c.request answer e') ∧
      ∀ answer e', e.Answers c.request answer e' →
        c.resume e'.env answer = goOn rest (done ++ [i.id]) ∧ e'.store.isTable = isTable ∧
        ∃ now, e.store.Puts ((write i).stamped i.version.next now) e'.store

namespace Tours

variable {isTable : Bool} {ready : Instance → Prop} {write : Instance → Instance}
  {goOn : List Instance → List InstanceId → Progress Call CallResult} {e e' : Engine}
  {items : List Instance} {done : List InstanceId} {result : Outcome CallResult}

/-- What is listed stays as it was listed while something else is written. -/
theorem listed_of_puts {s s' : Store} {i : Instance} (hnodup : ((i :: items).map (·.id)).Nodup)
    (hitems : ∀ j ∈ i :: items, s.find? j.id = some j ∧ ready j) {stored : Instance}
    (hid : stored.id = i.id) (hputs : s.Puts stored s') :
    ∀ j ∈ items, s'.find? j.id = some j ∧ ready j := by
  intro j hj
  have hne : j.id ≠ stored.id := by
    rintro hsame
    exact (List.nodup_cons.mp hnodup).1 (List.mem_map.mpr ⟨j, hj, hsame.trans hid⟩)
  rw [hputs.elsewhere j.id hne]
  exact hitems j (List.mem_cons_of_mem _ hj)

/-- A tour comes to its end. -/
theorem exists_leadsTo (h : Tours isTable ready write goOn) (done : List InstanceId)
    (hwellFormed : e.store.WellFormed) (htable : e.store.isTable = isTable)
    (hnodup : (items.map (·.id)).Nodup)
    (hitems : ∀ i ∈ items, e.store.find? i.id = some i ∧ ready i) :
    ∃ result e', (goOn items done).LeadsTo e result e' := by
  induction items generalizing e done with
  | nil => exact ⟨.ok (.listed done), e, by rw [h.ended]; exact ⟨rfl, rfl⟩⟩
  | cons i items ih =>
    obtain ⟨c, hc, hasks⟩ := h.asks i items done
    obtain ⟨hfound, hready⟩ := hitems i List.mem_cons_self
    obtain ⟨⟨answer, e₁, hanswer⟩, hserved⟩ := hasks e hwellFormed htable hfound hready
    obtain ⟨hresume, htable₁, now, hputs⟩ := hserved answer e₁ hanswer
    have hid : ((write i).stamped i.version.next now).id = i.id := h.id_eq i
    obtain ⟨result, e₂, hleads⟩ :
        ∃ result e₂, (goOn items (done ++ [i.id])).LeadsTo e₁ result e₂ :=
      ih _ hputs.wellFormed htable₁ (List.nodup_cons.mp hnodup).2
        (listed_of_puts hnodup hitems hid hputs)
    refine ⟨result, e₂, ?_⟩
    rw [hc]
    exact .of_answers hanswer (hresume ▸ hleads)

/-- A tour that nothing disturbs writes what it has listed and nothing else. -/
theorem of_leadsTo (h : Tours isTable ready write goOn)
    (hwellFormed : e.store.WellFormed) (htable : e.store.isTable = isTable)
    (hnodup : (items.map (·.id)).Nodup)
    (hitems : ∀ i ∈ items, e.store.find? i.id = some i ∧ ready i)
    (hleads : (goOn items done).LeadsTo e result e') :
    result = .ok (.listed (done ++ items.map (·.id))) ∧
      e.store.Rewritten write items e'.store := by
  induction items generalizing e done with
  | nil =>
    rw [h.ended] at hleads
    obtain ⟨rfl, rfl⟩ := hleads
    exact ⟨by simp, hwellFormed, rfl, by simp, fun _ _ => rfl⟩
  | cons i items ih =>
    obtain ⟨c, hc, hasks⟩ := h.asks i items done
    rw [hc] at hleads
    obtain ⟨now, answer, e₁, hanswer, hrest⟩ := Undisturbed.answered hleads
    obtain ⟨hfound, hready⟩ := hitems i List.mem_cons_self
    obtain ⟨-, hserved⟩ := hasks { e with now } hwellFormed htable hfound hready
    obtain ⟨hresume, htable₁, written, hputs⟩ := hserved answer e₁ hanswer
    have hid : ((write i).stamped i.version.next written).id = i.id := h.id_eq i
    have hkept := Instance.kept_stamped
      (h.kept_eq _ _ (Store.kept_of_find? hwellFormed hfound)) i.version.next written
    have hnew := List.nodup_cons.mp hnodup
    obtain ⟨hresult, hrewritten⟩ := ih hputs.wellFormed htable₁ hnew.2
      (listed_of_puts hnodup hitems hid hputs) (hresume ▸ hrest)
    refine ⟨by simp [hresult], hrewritten.wellFormed,
      hrewritten.isTable.trans (htable₁.trans htable.symm), fun j hj => ?_, fun id hout => ?_⟩
    · rcases List.mem_cons.mp hj with rfl | hj
      · have hhere := hputs.here
        rw [hkept, hid, ← hrewritten.elsewhere _ hnew.1] at hhere
        exact ⟨_, hhere⟩
      · exact hrewritten.here j hj
    · obtain ⟨hne, hout⟩ : id ≠ i.id ∧ id ∉ items.map (·.id) := by simpa using hout
      rw [hrewritten.elsewhere id hout]
      exact hputs.elsewhere id (hid ▸ hne)

/-- A call that lists instances and then goes on a tour through them comes to its end. -/
theorem exists_undisturbed (h : Tours isTable ready write goOn)
    (hwellFormed : e.store.WellFormed) (htable : e.store.isTable = isTable)
    (hnodup : (items.map (·.id)).Nodup)
    (hitems : ∀ i ∈ items, e.store.find? i.id = some i ∧ ready i) {c : Call}
    {answer : c.request.Answer} (hanswer : e.Answers c.request answer e)
    (hresume : c.resume e.env answer = goOn items []) :
    ∃ result e', Undisturbed e c result e' := by
  obtain ⟨result, e', hleads⟩ := h.exists_leadsTo [] hwellFormed htable hnodup hitems
  exact ⟨result, e', .of_answers hanswer (hresume ▸ hleads)⟩

/-- A call that lists instances and goes through them writes them and nothing else. -/
theorem of_undisturbed (h : Tours isTable ready write goOn)
    (hwellFormed : e.store.WellFormed) (htable : e.store.isTable = isTable)
    (hnodup : (items.map (·.id)).Nodup)
    (hitems : ∀ i ∈ items, e.store.find? i.id = some i ∧ ready i) {c : Call}
    (hlists : ∀ now answer e₁, ({ e with now } : Engine).Answers c.request answer e₁ →
      e₁ = { e with now } ∧ c.resume e₁.env answer = goOn items [])
    (hundisturbed : Undisturbed e c result e') :
    result = .ok (.listed (items.map (·.id))) ∧ e.store.Rewritten write items e'.store := by
  obtain ⟨now, answer, e₁, hanswer, hleads⟩ := hundisturbed.answered
  obtain ⟨rfl, hresume⟩ := hlists now answer e₁ hanswer
  rw [hresume] at hleads
  exact h.of_leadsTo (e := { e with now }) hwellFormed htable hnodup hitems hleads

end Tours
end WorkflowEngine
