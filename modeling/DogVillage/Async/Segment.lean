import DogVillage.Async.Outcome

/-!
# From one quiet state to the next

`outcome_of_run` looks at a device that is idle before the action and
after. Here what else is outstanding then, and what still is when the
look is taken, may show what a predicate `P` allows: a device is `Quiet`
when that is all its future holds. What was seen in between, up to what
`P` allows, is an outcome of the action's code.
-/

namespace Async

variable {S : Sig} {sys : System S} {D : Type}

/-! ## There is a future -/

/-- What is seen, when it is an answer, is the one `ans` gives. -/
def Given (ans : (q : S.Ask) → S.Ans q) : Obs S → Prop
  | .answered q a => a = ans q
  | _ => True

section

variable {I : S.Loc → Prop} (hI : ∃ l, I l) (ans : (q : S.Ask) → S.Ans q) (henv : Nonempty S.Env)

include hI henv

/-- Every call of the code may be answered so. -/
theorem exists_outcome : ∀ c : Code S, ∃ m, Outcome I c m ∧ ∀ x ∈ m, Given ans x
  | .done => ⟨0, rfl, by simp⟩
  | .write _ h n => by
      obtain ⟨m₁, h₁, g₁⟩ := exists_outcome (h none)
      obtain ⟨m₂, h₂, g₂⟩ := exists_outcome n
      refine ⟨_, ⟨none, m₁, m₂, h₁, h₂, rfl⟩, fun x hx => ?_⟩
      simp only [Multiset.insert_eq_cons, Multiset.mem_add, Multiset.mem_cons,
        Multiset.mem_singleton] at hx
      rcases hx with ((rfl | rfl) | hx) | hx
      exacts [trivial, trivial, g₁ x hx, g₂ x hx]
  | .ask q h n => by
      obtain ⟨m₁, h₁, g₁⟩ := exists_outcome (h (ans q))
      obtain ⟨m₂, h₂, g₂⟩ := exists_outcome n
      refine ⟨_, ⟨ans q, m₁, m₂, h₁, h₂, rfl⟩, fun x hx => ?_⟩
      simp only [Multiset.mem_add, Multiset.mem_singleton] at hx
      rcases hx with (rfl | hx) | hx
      exacts [rfl, g₁ x hx, g₂ x hx]
  | .listen _ _ n => exists_outcome n
  | .global b n => by
      obtain ⟨m₁, h₁, g₁⟩ := exists_outcome b
      obtain ⟨m₂, h₂, g₂⟩ := exists_outcome n
      exact ⟨_, ⟨m₁, m₂, h₁, h₂, rfl⟩, fun x hx => (Multiset.mem_add.mp hx).elim (g₁ x) (g₂ x)⟩
  | .main b n => by
      obtain ⟨m₁, h₁, g₁⟩ := exists_outcome b
      obtain ⟨m₂, h₂, g₂⟩ := exists_outcome n
      exact ⟨_, ⟨m₁, m₂, h₁, h₂, rfl⟩, fun x hx => (Multiset.mem_add.mp hx).elim (g₁ x) (g₂ x)⟩
  | .env k => by
      obtain ⟨v⟩ := henv
      obtain ⟨m, h, g⟩ := exists_outcome (k v)
      exact ⟨_, ⟨v, m, h, rfl⟩, by simpa [Given] using g⟩
  | .get k => by
      obtain ⟨l, hl⟩ := hI
      obtain ⟨m, h, g⟩ := exists_outcome (k l)
      exact ⟨m, ⟨l, hl, h⟩, g⟩
  | .modify _ n => by
      obtain ⟨m, h, g⟩ := exists_outcome n
      exact ⟨_, ⟨m, h, rfl⟩, by simpa [Given] using g⟩
  | .note _ n => by
      obtain ⟨m, h, g⟩ := exists_outcome n
      exact ⟨_, ⟨m, h, rfl⟩, by simpa [Given] using g⟩

omit hI henv in
theorem Sum.exists {α O : Type} {P : α → Multiset O → Prop} {Q : O → Prop}
    (hP : ∀ a, ∃ m, P a m ∧ ∀ x ∈ m, Q x) : ∀ l : List α, ∃ m, Sum P l m ∧ ∀ x ∈ m, Q x
  | [] => ⟨0, rfl, by simp⟩
  | a :: l => by
      obtain ⟨m₁, h₁, g₁⟩ := hP a
      obtain ⟨m₂, h₂, g₂⟩ := Sum.exists hP l
      exact ⟨_, ⟨m₁, m₂, h₁, h₂, rfl⟩, fun x hx => (Multiset.mem_add.mp hx).elim (g₁ x) (g₂ x)⟩

theorem exists_future (dev : Device sys) : ∃ m, Future I dev m ∧ ∀ x ∈ m, Given ans x := by
  obtain ⟨m₁, h₁, g₁⟩ := Sum.exists (P := fun j : Job sys => Outcome I j.code)
    (fun j => exists_outcome hI ans henv j.code) dev.jobs
  obtain ⟨m₂, h₂, g₂⟩ := Sum.exists (P := fun (x : Sent sys) m =>
      ∃ r m', Outcome I (x.handler r) m' ∧ m = {.wrote x.write r} + m') (Q := Given ans)
    (fun x => by
      obtain ⟨m', h', g'⟩ := exists_outcome hI ans henv (x.handler none)
      exact ⟨_, ⟨none, m', h', rfl⟩, by simpa [Given] using g'⟩) dev.writes
  obtain ⟨m₃, h₃, g₃⟩ := Sum.exists (P := fun (x : Asked sys) m =>
      ∃ a m', Outcome I (x.handler a) m' ∧ m = {.answered x.q a} + m') (Q := Given ans)
    (fun x => by
      obtain ⟨m', h', g'⟩ := exists_outcome hI ans henv (x.handler (ans x.q))
      exact ⟨_, ⟨ans x.q, m', h', rfl⟩, by simpa [Given] using g'⟩) dev.asks
  refine ⟨_, ⟨m₁, m₂, m₃, h₁, h₂, h₃, rfl⟩, fun x hx => ?_⟩
  simp only [Multiset.mem_add] at hx
  rcases hx with (hx | hx) | hx
  exacts [g₁ x hx, g₂ x hx, g₃ x hx]

end

/-! ## Quiet devices -/

/-- Whatever may still be seen of the device meets `P`. -/
def Device.Quiet (P : Obs S → Prop) (dev : Device sys) : Prop :=
  ∀ m, Future (fun _ => True) dev m → ∀ x ∈ m, P x

theorem Device.Quiet.of_idle {P : Obs S → Prop} {dev : Device sys} (h : dev.idle = true) :
    dev.Quiet P := fun m hm x hx => by
  rw [Future.eq_zero h hm] at hx
  cases Multiset.notMem_zero x hx

variable {I J : S.Loc → Prop}

theorem Outcome.mono (hIJ : ∀ l, I l → J l) :
    ∀ {c : Code S} {m : Multiset (Obs S)}, Outcome I c m → Outcome J c m
  | .done, _, h => h
  | .write .., _, ⟨r, m₁, m₂, hh, hn, hm⟩ => ⟨r, m₁, m₂, hh.mono hIJ, hn.mono hIJ, hm⟩
  | .ask .., _, ⟨a, m₁, m₂, hh, hn, hm⟩ => ⟨a, m₁, m₂, hh.mono hIJ, hn.mono hIJ, hm⟩
  | .listen _ _ n, _, h => Outcome.mono (c := n) hIJ h
  | .global .., _, ⟨m₁, m₂, hb, hn, hm⟩ => ⟨m₁, m₂, hb.mono hIJ, hn.mono hIJ, hm⟩
  | .main .., _, ⟨m₁, m₂, hb, hn, hm⟩ => ⟨m₁, m₂, hb.mono hIJ, hn.mono hIJ, hm⟩
  | .env _, _, ⟨v, m₁, hk, hm⟩ => ⟨v, m₁, hk.mono hIJ, hm⟩
  | .get _, _, ⟨l, hl, hk⟩ => ⟨l, hIJ l hl, hk.mono hIJ⟩
  | .modify .., _, ⟨m₁, hn, hm⟩ => ⟨m₁, hn.mono hIJ, hm⟩
  | .note .., _, ⟨m₁, hn, hm⟩ => ⟨m₁, hn.mono hIJ, hm⟩

theorem Sum.mono {α O : Type} {P Q : α → Multiset O → Prop} (hPQ : ∀ a m, P a m → Q a m) :
    ∀ {l : List α} {m : Multiset O}, Sum P l m → Sum Q l m
  | [], _, h => h
  | _ :: _, _, ⟨m₁, m₂, ha, hl, hm⟩ => ⟨m₁, m₂, hPQ _ _ ha, hl.mono hPQ, hm⟩

theorem Future.mono (hIJ : ∀ l, I l → J l) {dev : Device sys} {m : Multiset (Obs S)}
    (h : Future I dev m) : Future J dev m := by
  obtain ⟨m₁, m₂, m₃, h₁, h₂, h₃, rfl⟩ := h
  refine ⟨m₁, m₂, m₃, h₁.mono fun _ _ h => h.mono hIJ, h₂.mono ?_, h₃.mono ?_, rfl⟩
  · rintro x m ⟨r, m', h, hm⟩
    exact ⟨r, m', h.mono hIJ, hm⟩
  · rintro x m ⟨a, m', h, hm⟩
    exact ⟨a, m', h.mono hIJ, hm⟩

/-- Of a quiet device a run without user actions shows only what `P` allows. -/
theorem seen_of_quiet [DecidableEq D] {P : Obs S → Prop} (hans : ∀ q, Nonempty (S.Ans q))
    (henv : Nonempty S.Env) {ok : World sys D → Event sys D → Prop} {d : D}
    (hok : ∀ w e, ok w e → e.Own d) {w₀ w : World sys D} (hquiet : (w₀.devices d).Quiet P)
    (hrun : Run ok w₀ w) :
    ∃ o, w.seen d = w₀.seen d + o ∧ ∀ x ∈ o, P x := by
  obtain ⟨o, ho, hback⟩ := Future.run (I := fun _ => True) hok hrun trivial
  obtain ⟨m, hm, -⟩ := exists_future (I := fun _ => True) ⟨(w₀.devices d).loc, trivial⟩
    (fun q => (hans q).some) henv (w.devices d)
  refine ⟨o, ho, fun x hx => hquiet (o + m) ?_ x (Multiset.mem_add.mpr (Or.inl hx))⟩
  exact (hback fun _ _ _ _ => trivial).2 m (fun _ _ _ _ => trivial) hm

/-- A user action on a quiet device, run until the device is quiet again,
shows an outcome of its code, up to what `P` allows. -/
theorem outcome_of_quiet [DecidableEq D] {P : Obs S → Prop} (hP : ∀ f, ¬P (.changed f))
    (hans : ∀ q, Nonempty (S.Ans q)) (henv : Nonempty S.Env) (I : S.Loc → Prop)
    {ok : World sys D → Event sys D → Prop} {d : D} (hok : ∀ w e, ok w e → e.Own d)
    {a : sys.Action} {w₀ w₁ w : World sys D} (hquiet : (w₀.devices d).Quiet P)
    (hact : step w₀ (.act d a) = some w₁) (hrun : Run ok w₁ w) (hdone : (w.devices d).Quiet P)
    (hl : I (w₀.devices d).loc) :
    ∃ o, w.seen d = w₀.seen d + {.acted} + o ∧ (Kept I o → I (w.devices d).loc ∧
      ∃ m m₁ m₂, o + m = m₁ + m₂ ∧ (∀ x ∈ m, P x) ∧ (∀ x ∈ m₂, P x) ∧
        Outcome I ((sys.ui a (w₀.devices d).loc).2.start (w₀.devices d).loc) m₁) := by
  cases stepped_of_step hact with
  | act hmain =>
      obtain ⟨o, ho, hback⟩ := Future.run (I := I) hok hrun (by rw [World.put_device]; exact hl)
      refine ⟨o, by rw [ho, World.seen_put]; rfl, fun hk => ?_⟩
      obtain ⟨hloc, hfut⟩ := hback hk
      obtain ⟨m, hm, -⟩ := exists_future ⟨_, hl⟩ (fun q => (hans q).some) henv (w.devices d)
      have hmP : ∀ x ∈ m, P x := hdone m (hm.mono fun _ _ => trivial)
      have h := hfut m (fun f hf => absurd (hmP _ hf) (hP f)) hm
      rw [World.put_device] at h
      obtain ⟨m₁, m₂, h₁, h₂, heq⟩ := (Future.begin hmain).mp h
      exact ⟨hloc, m, m₁, m₂, heq, hmP, hquiet m₂ (h₂.mono fun _ _ => trivial), h₁⟩

end Async
