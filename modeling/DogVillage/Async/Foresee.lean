import DogVillage.Async.Segment
import DogVillage.Async.Reach

/-!
# What may still be seen

A device `Foresees` what holds of everything it may still show, as long as
its calls are answered as `A` has it. A step takes what it shows off the
future, so an invariant of a run can speak of what is left: an adequacy
argument that does not wait for the device to come to rest, and that lets
new actions come in between.
-/

namespace Async

variable {S : Sig} {sys : System S} {D : Type}

/-- Whatever the device may still show meets `Q`. -/
def Device.Foresees (A : (q : S.Ask) → S.Ans q → Prop) (Q : Multiset (Obs S) → Prop)
    (dev : Device sys) : Prop :=
  ∀ m, Future (fun _ => True) dev m → (∀ q a, .answered q a ∈ m → A q a) → Q m

variable {A A' : (q : S.Ask) → S.Ans q → Prop} {Q Q₁ Q' : Multiset (Obs S) → Prop}
  {P : Obs S → Prop} {dev : Device sys}

namespace Device.Foresees

theorem mono (h : dev.Foresees A Q) (hA : ∀ q a, A' q a → A q a) (hQ : ∀ m, Q m → Q' m) :
    dev.Foresees A' Q' :=
  fun m hm ha => hQ m (h m hm fun q a hx => hA q a (ha q a hx))

theorem imp (h : dev.Foresees A Q) (hQ : ∀ m, Q m → Q' m) : dev.Foresees A Q' :=
  h.mono (fun _ _ ha => ha) hQ

theorem of_quiet (h : dev.Quiet P) : dev.Foresees A fun m => ∀ x ∈ m, P x := fun m hm _ => h m hm

theorem of_idle (h : dev.Foresees A Q) (hidle : dev.idle = true) : Q 0 :=
  h 0 (Future.of_idle hidle) fun _ _ hx => absurd hx (Multiset.notMem_zero _)

/-- There is always something to foresee. -/
theorem exists_future (h : dev.Foresees A Q) (hA : ∀ q, ∃ a, A q a) (henv : Nonempty S.Env) :
    ∃ m, Future (fun _ => True) dev m ∧ (∀ q a, .answered q a ∈ m → A q a) ∧ Q m := by
  choose ans hans using hA
  obtain ⟨m, hm, hgiven⟩ := Async.exists_future (I := fun _ => True) ⟨dev.loc, trivial⟩ ans henv dev
  have ha : ∀ q a, .answered q a ∈ m → A q a := by
    intro q a hx
    have hq : a = ans q := hgiven _ hx
    rw [hq]
    exact hans q
  exact ⟨m, hm, ha, h m hm ha⟩

end Device.Foresees

/-- What outcomes of the code may show. -/
theorem Code.Under.outcome {I : S.Loc → Prop} : ∀ {c : Code S} {m : Multiset (Obs S)},
    c.Under I A P → Outcome I c m → (∀ q a, .answered q a ∈ m → A q a) → ∀ x ∈ m, P x
  | .done, _, _, rfl, _ => by simp
  | .write .., _, hc, ⟨r, m₁, m₂, hh, hn, rfl⟩, ha => by
      simp only [Multiset.insert_eq_cons, Multiset.mem_add, Multiset.mem_cons,
        Multiset.mem_singleton] at ha ⊢
      rintro x (((rfl | rfl) | hx) | hx)
      · exact hc.1
      · exact (hc.2.1 r).1
      · exact (hc.2.1 r).2.outcome hh (fun q a h => ha q a (Or.inl (Or.inr h))) x hx
      · exact hc.2.2.outcome hn (fun q a h => ha q a (Or.inr h)) x hx
  | .ask .., _, hc, ⟨a, m₁, m₂, hh, hn, rfl⟩, ha => by
      simp only [Multiset.mem_add, Multiset.mem_singleton] at ha ⊢
      have hq := ha _ _ (Or.inl (Or.inl rfl))
      rintro x ((rfl | hx) | hx)
      · exact (hc.1 a hq).1
      · exact (hc.1 a hq).2.outcome hh (fun q a h => ha q a (Or.inl (Or.inr h))) x hx
      · exact hc.2.outcome hn (fun q a h => ha q a (Or.inr h)) x hx
  | .listen _ _ n, _, hc, h, ha => Code.Under.outcome (c := n) hc.2 h ha
  | .global .., _, hc, ⟨m₁, m₂, hb, hn, rfl⟩, ha => by
      simp only [Multiset.mem_add] at ha ⊢
      rintro x (hx | hx)
      · exact hc.1.outcome hb (fun q a h => ha q a (Or.inl h)) x hx
      · exact hc.2.outcome hn (fun q a h => ha q a (Or.inr h)) x hx
  | .main .., _, hc, ⟨m₁, m₂, hb, hn, rfl⟩, ha => by
      simp only [Multiset.mem_add] at ha ⊢
      rintro x (hx | hx)
      · exact hc.1.outcome hb (fun q a h => ha q a (Or.inl h)) x hx
      · exact hc.2.outcome hn (fun q a h => ha q a (Or.inr h)) x hx
  | .env _, _, hc, ⟨v, m₁, hk, rfl⟩, ha => by
      simp only [Multiset.mem_add, Multiset.mem_singleton] at ha ⊢
      rintro x (rfl | hx)
      · exact (hc v).1
      · exact (hc v).2.outcome hk (fun q a h => ha q a (Or.inr h)) x hx
  | .get _, _, hc, ⟨l, hl, hk⟩, ha => (hc l hl).outcome hk ha
  | .modify _ n, _, hc, ⟨m₁, hn, rfl⟩, ha => by
      simp only [Multiset.mem_add, Multiset.mem_singleton] at ha ⊢
      rintro x (rfl | hx)
      · exact hc.1
      · exact Code.Under.outcome (c := n) hc.2 hn (fun q a h => ha q a (Or.inr h)) x hx
  | .note _ n, _, hc, ⟨m₁, hn, rfl⟩, ha => by
      simp only [Multiset.mem_add, Multiset.mem_singleton] at ha ⊢
      rintro x (rfl | hx)
      · exact hc.1
      · exact Code.Under.outcome (c := n) hc.2 hn (fun q a h => ha q a (Or.inr h)) x hx

section

variable [DecidableEq D] {w w' : World sys D} {e : Event sys D} {d : D} {o : Multiset (Obs S)}

/-- An action adds what its code may show. -/
theorem Device.Foresees.act {a : sys.Action} (h : (w.devices d).Foresees A Q)
    (hs : Stepped w (.act d a) w')
    (hact : ∀ m, Outcome (fun _ => True)
      ((sys.ui a (w.devices d).loc).2.start (w.devices d).loc) m →
        (∀ q b, .answered q b ∈ m → A q b) → Q₁ m) :
    (w'.devices d).Foresees A fun m => ∃ m₁ m₂, Q₁ m₁ ∧ Q m₂ ∧ m = m₁ + m₂ := by
  cases hs with
  | act hmain =>
      intro m hm ha
      rw [World.put_device] at hm
      obtain ⟨m₁, m₂, h₁, h₂, rfl⟩ := (Future.begin hmain).mp hm
      exact ⟨m₁, m₂, hact m₁ h₁ fun q b hx => ha q b (Multiset.mem_add.mpr (Or.inl hx)),
        h m₂ h₂ fun q b hx => ha q b (Multiset.mem_add.mpr (Or.inr hx)), rfl⟩

/-- Any other step of the device takes off what it shows. -/
theorem Device.Foresees.step (h : (w.devices d).Foresees A Q) (hs : Stepped w e w')
    (hown : e.Own d) (ho : w'.seen d = w.seen d + o) (ha : ∀ q a, .answered q a ∈ o → A q a) :
    (w'.devices d).Foresees A fun m => Q (o + m) := by
  obtain ⟨o', ho', -, hback⟩ := Future.step (I := fun _ => True) hs hown trivial
  rw [ho, add_right_inj] at ho'
  subst ho'
  intro m hm hm'
  refine h _ (hback m (fun _ _ _ _ => trivial) hm) fun q a hx => ?_
  exact (Multiset.mem_add.mp hx).elim (ha q a) (hm' q a)

/-- One step shows at most one thing. -/
theorem Stepped.seen (hs : Stepped w e w') (d : D) :
    w'.seen d = w.seen d ∨ ∃ x, w'.seen d = w.seen d + {x} := by
  have key : ∀ {d' : D} {srv : sys.Srv} {dev : Device sys} {t : sys.Tag} {obs : List (Obs S)},
      w' = w.put d' srv dev t obs → (obs = [] ∨ ∃ x, obs = [x]) →
      w'.seen d = w.seen d ∨ ∃ x, w'.seen d = w.seen d + {x} := by
    intro d' srv dev t obs hw hobs
    by_cases hd : d' = d
    · subst hd
      rw [hw, World.seen_put]
      rcases hobs with rfl | ⟨x, rfl⟩
      · exact Or.inl (by simp)
      · exact Or.inr ⟨x, rfl⟩
    · exact Or.inl (by rw [hw, World.seen_put_ne hd])
  cases hs with
  | next => exact key rfl (Or.inl rfl)
  | finish => exact key rfl (Or.inl rfl)
  | @run d s v t c dev r htake hexec =>
      refine key rfl ?_
      cases c with
      | done => cases hexec
      | env k =>
          obtain ⟨_, -, rfl⟩ := Option.map_eq_some_iff.mp hexec
          exact Or.inr ⟨_, rfl⟩
      | write | modify | note => cases hexec; exact Or.inr ⟨_, rfl⟩
      | _ => cases hexec; exact Or.inl rfl
  | _ => exact key rfl (Or.inr ⟨_, rfl⟩)

/-- The change a step shows, if it shows one, is what became of the memory. -/
theorem Stepped.loc_of_seen (hs : Stepped w e w') (ho : w'.seen d = w.seen d + o) :
    changes o = 0 ∧ (w'.devices d).loc = (w.devices d).loc ∨
      ∃ f, o = {.changed f} ∧ (w'.devices d).loc = f (w.devices d).loc := by
  obtain ⟨o', ho', hloc⟩ := loc_of_step hs d
  rw [ho, add_right_inj] at ho'
  subst ho'
  refine hloc.imp id fun ⟨f, hc, hl⟩ => ⟨f, ?_, hl⟩
  have hf : .changed f ∈ o := mem_changes.mp (by rw [hc]; exact Multiset.mem_singleton_self f)
  rcases hs.seen d with hsame | ⟨x, hx⟩
  · rw [hsame, left_eq_add] at ho
    subst ho
    cases Multiset.notMem_zero _ hf
  · rw [hx, add_right_inj] at ho
    subst ho
    rw [Multiset.mem_singleton.mp hf]

theorem Stepped.seen_of_ne (hs : Stepped w e w') (hd : e.device ≠ d) : w'.seen d = w.seen d := by
  cases hs <;> exact World.seen_put_ne hd

/-- What a call is answered with when a step shows it. -/
theorem Stepped.answered (hs : Stepped w e w') (hown : e.Own d)
    (ho : w'.seen d = w.seen d + o) {q : S.Ask} {a : S.Ans q} (ha : .answered q a ∈ o) :
    ∃ i c srv, e = .answer d i c ∧ sys.serve q c w.server = some (a, srv) := by
  have key : ∀ {d' : D} {srv : sys.Srv} {dev : Device sys} {t : sys.Tag} {obs : List (Obs S)},
      w' = w.put d' srv dev t obs → d' = d ∧ .answered q a ∈ obs := by
    intro d' srv dev t obs hw
    by_cases hd : d' = d
    · subst hd
      rw [hw, World.seen_put, add_right_inj] at ho
      subst ho
      exact ⟨rfl, ha⟩
    · rw [hw, World.seen_put_ne hd, left_eq_add] at ho
      subst ho
      cases Multiset.notMem_zero _ ha
  cases hs with
  | act => cases List.mem_singleton.mp (key rfl).2
  | next => cases (key rfl).2
  | finish => cases (key rfl).2
  | @run d s v t c dev r htake hexec =>
      have hobs := (key rfl).2
      cases c with
      | done => cases hexec
      | env k =>
          obtain ⟨_, -, rfl⟩ := Option.map_eq_some_iff.mp hexec
          cases List.mem_singleton.mp hobs
      | write | modify | note => cases hexec; cases List.mem_singleton.mp hobs
      | _ => cases hexec; cases hobs
  | commit => cases List.mem_singleton.mp (key rfl).2
  | @answer d' i c x b srv hi hv =>
      obtain ⟨rfl, hobs⟩ := key rfl
      cases List.mem_singleton.mp hobs
      exact ⟨i, c, srv, rfl, hv⟩
  | @notify d' i c x b srv hi hv =>
      obtain ⟨rfl, -⟩ := key rfl
      exact absurd rfl (hown.2 i c)

end

end Async
