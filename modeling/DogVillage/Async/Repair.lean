import DogVillage.Async.Owe

/-!
# What is wrong is about to be put right

Code that changes the memory in a way that leaves something wrong there,
and goes on to make the calls whose answers put it right. Code is `Careful`
when it leaves nothing wrong that the rest of it does not come to mend. As
long as every block is careful, whatever is wrong in the memory of a device
is due to be mended by something outstanding there; so on an idle device
nothing is wrong.
-/

namespace Async

variable {S : Sig}

namespace Code

/-- No statement of the code itself reads or changes the memory. -/
def Bare : Code S → Prop
  | .done => True
  | .write _ _ n => n.Bare
  | .ask _ _ n => n.Bare
  | .listen _ _ n => n.Bare
  | .global _ n => n.Bare
  | .main _ n => n.Bare
  | .env k => ∀ v, (k v).Bare
  | .get _ => False
  | .modify _ _ => False
  | .note _ n => n.Bare

/-- No statement of the code itself reads the memory. -/
def Started : Code S → Prop
  | .done => True
  | .write _ _ n => n.Started
  | .ask _ _ n => n.Started
  | .listen _ _ n => n.Started
  | .global _ n => n.Started
  | .main _ n => n.Started
  | .env k => ∀ v, (k v).Started
  | .get _ => False
  | .modify _ n => n.Started
  | .note _ n => n.Started

theorem Bare.started : ∀ {c : Code S}, c.Bare → c.Started
  | .done, _ => trivial
  | .write _ _ n, h => Bare.started (c := n) h
  | .ask _ _ n, h => Bare.started (c := n) h
  | .listen _ _ n, h => Bare.started (c := n) h
  | .global _ n, h => Bare.started (c := n) h
  | .main _ n, h => Bare.started (c := n) h
  | .env _, h => fun v => (h v).started
  | .note _ n, h => Bare.started (c := n) h

theorem started_start : ∀ {c : Code S} {l : S.Loc}, (c.start l).Started
  | .done, _ => trivial
  | .write _ _ n, _ => started_start (c := n)
  | .ask _ _ n, _ => started_start (c := n)
  | .listen _ _ n, _ => started_start (c := n)
  | .global _ n, _ => started_start (c := n)
  | .main _ n, _ => started_start (c := n)
  | .env k, _ => fun v => started_start (c := k v)
  | .get k, l => started_start (c := k l)
  | .modify _ n, _ => started_start (c := n)
  | .note _ n, _ => started_start (c := n)

theorem Started.start : ∀ {c : Code S} {l : S.Loc}, c.Started → c.start l = c
  | .done, _, _ => rfl
  | .write _ _ n, _, h => congrArg _ (Started.start (c := n) h)
  | .ask _ _ n, _, h => congrArg _ (Started.start (c := n) h)
  | .listen _ _ n, _, h => congrArg _ (Started.start (c := n) h)
  | .global _ n, _, h => congrArg _ (Started.start (c := n) h)
  | .main _ n, _, h => congrArg _ (Started.start (c := n) h)
  | .env _, _, h => congrArg _ (funext fun v => (h v).start)
  | .modify _ n, _, h => congrArg _ (Started.start (c := n) h)
  | .note _ n, _, h => congrArg _ (Started.start (c := n) h)

theorem start_start {c : Code S} {l l' : S.Loc} : (c.start l).start l' = c.start l :=
  started_start.start

end Code

/-- The changes that put things right, on the paths code takes where the
memory is as `loc` has it and calls are answered as `ans` has it. -/
structure Remedy (S : Sig) (ι : Type) where
  loc : S.Loc → Prop
  ans : (q : S.Ask) → S.Ans q → Prop
  cures : ι → (S.Loc → S.Loc) → Prop

/-- What may be wrong in memory that is otherwise `sane`, as long as calls
are answered as `given` has it. -/
structure Repair (S : Sig) (ι : Type) extends Remedy S ι where
  sane : S.Loc → Prop
  given : (q : S.Ask) → S.Ans q → Prop
  wrong : ι → S.Loc → Prop
  cure : ∀ x f l, cures x f → sane l → ¬wrong x (f l)
  loc_of_sane : ∀ l, sane l → loc l
  ans_of_given : ∀ q a, given q a → ans q a

variable {ι : Type}

namespace Remedy

variable (r : Remedy S ι)

/-- On every path that can still be taken the code comes to put `x` right. -/
def Mends (x : ι) : Code S → Prop
  | .done => False
  | .write _ h n => (∀ e, Mends x (h e)) ∨ Mends x n
  | .ask q h n => (∀ a, r.ans q a → Mends x (h a)) ∨ Mends x n
  | .listen _ _ n => Mends x n
  | .global b n => Mends x b ∨ Mends x n
  | .main b n => Mends x b ∨ Mends x n
  | .env k => ∀ v, Mends x (k v)
  | .get k => ∀ l, r.loc l → Mends x (k l)
  | .modify f n => r.cures x f ∨ Mends x n
  | .note _ n => Mends x n

variable {r} {x : ι}

theorem Mends.andThen_left {d : Code S} : ∀ {c : Code S}, r.Mends x c → r.Mends x (c.andThen d)
  | .done, h => h.elim
  | .write .., h => h.imp_right (·.andThen_left)
  | .ask .., h => h.imp_right (·.andThen_left)
  | .listen _ _ n, h => Mends.andThen_left (c := n) h
  | .global .., h => h.imp_right (·.andThen_left)
  | .main .., h => h.imp_right (·.andThen_left)
  | .env _, h => fun v => (h v).andThen_left
  | .get _, h => fun l hl => (h l hl).andThen_left
  | .modify .., h => h.imp_right (·.andThen_left)
  | .note _ n, h => Mends.andThen_left (c := n) h

theorem Mends.andThen_right {d : Code S} (hd : r.Mends x d) :
    ∀ {c : Code S}, r.Mends x (c.andThen d)
  | .done => hd
  | .write _ _ n => Or.inr (hd.andThen_right (c := n))
  | .ask _ _ n => Or.inr (hd.andThen_right (c := n))
  | .listen _ _ n => hd.andThen_right (c := n)
  | .global _ n => Or.inr (hd.andThen_right (c := n))
  | .main _ n => Or.inr (hd.andThen_right (c := n))
  | .env k => fun v => hd.andThen_right (c := k v)
  | .get k => fun l _ => hd.andThen_right (c := k l)
  | .modify _ n => Or.inr (hd.andThen_right (c := n))
  | .note _ n => hd.andThen_right (c := n)

theorem Mends.forEach {α : Type} {f : α → Code S} {a : α} (h : r.Mends x (f a)) :
    ∀ {l : List α}, a ∈ l → r.Mends x (Code.forEach l f)
  | b :: l, ha => by
      rcases List.mem_cons.mp ha with rfl | ha
      · exact h.andThen_left
      · exact (h.forEach ha).andThen_right

theorem Mends.start_andThen {d : Code S} :
    ∀ {c : Code S} {l : S.Loc}, r.Mends x (c.start l) → r.Mends x ((c.andThen d).start l)
  | .done, _, h => h.elim
  | .write .., _, h => h.imp_right (·.start_andThen)
  | .ask .., _, h => h.imp_right (·.start_andThen)
  | .listen _ _ n, _, h => Mends.start_andThen (c := n) h
  | .global .., _, h => h.imp_right (·.start_andThen)
  | .main .., _, h => h.imp_right (·.start_andThen)
  | .env k, _, h => fun v => Mends.start_andThen (c := k v) (h v)
  | .get k, l, h => Mends.start_andThen (c := k l) h
  | .modify .., _, h => h.imp_right (·.start_andThen)
  | .note _ n, _, h => Mends.start_andThen (c := n) h

/-! ## Devices -/

variable {sys : System S} {D : Type}

variable (r) in
/-- Something outstanding on the device comes to put `x` right. -/
def Due (x : ι) (dev : Device sys) : Prop :=
  (∃ j ∈ dev.jobs, r.Mends x j.code) ∨
    (∃ m ∈ dev.writes, ∀ e, r.Mends x (m.handler e)) ∨
    ∃ m ∈ dev.asks, ∀ a, r.ans m.q a → r.Mends x (m.handler a)

theorem not_due_of_idle {dev : Device sys} (h : dev.idle = true) : ¬r.Due x dev := by
  obtain ⟨hj, hw, ha⟩ := Device.idle_iff.mp h
  rintro (⟨j, hm, -⟩ | ⟨m, hm, -⟩ | ⟨m, hm, -⟩)
  · rw [hj] at hm; cases hm
  · rw [hw] at hm; cases hm
  · rw [ha] at hm; cases hm

theorem Due.mono {dev dev' : Device sys} (h : r.Due x dev) (hj : ∀ j ∈ dev.jobs, j ∈ dev'.jobs)
    (hw : ∀ m ∈ dev.writes, m ∈ dev'.writes) (ha : ∀ m ∈ dev.asks, m ∈ dev'.asks) :
    r.Due x dev' := by
  rcases h with ⟨j, hm, h⟩ | ⟨m, hm, h⟩ | ⟨m, hm, h⟩
  · exact Or.inl ⟨j, hj j hm, h⟩
  · exact Or.inr (Or.inl ⟨m, hw m hm, h⟩)
  · exact Or.inr (Or.inr ⟨m, ha m hm, h⟩)

variable {t : sys.Tag} {v : S.Env} {srv : sys.Srv} {dev : Device sys} {c : Code S} {u : Turn sys}

/-- One statement of code that mends: what is left mends, or what it issued
does, or it was the statement that puts it right. -/
theorem Mends.exec (hc : r.Mends x c) (hl : r.loc dev.loc) (h : exec t v srv dev c = some u) :
    r.Mends x u.code ∨ r.Due x u.device ∨ ∃ f n, c = .modify f n ∧ r.cures x f := by
  cases c with
  | done => cases h
  | write w hd n =>
      cases h
      rcases hc with hc | hc
      · exact Or.inr (Or.inl (Or.inr (Or.inl ⟨⟨t, w, hd⟩, by simp, hc⟩)))
      · exact Or.inl hc
  | ask q hd n =>
      cases h
      rcases hc with hc | hc
      · exact Or.inr (Or.inl (Or.inr (Or.inr ⟨⟨t, q, hd⟩, by simp, hc⟩)))
      · exact Or.inl hc
  | listen q hd n => cases h; exact Or.inl hc
  | global b n =>
      cases h
      rcases hc with hc | hc
      · exact Or.inr (Or.inl (Or.inl ⟨⟨t, b⟩, by simp [Device.jobs], hc⟩))
      · exact Or.inl hc
  | main b n =>
      cases h
      rcases hc with hc | hc
      · exact Or.inr (Or.inl (Or.inl ⟨⟨t, b⟩, by simp [Device.jobs], hc⟩))
      · exact Or.inl hc
  | env k =>
      obtain ⟨_, -, rfl⟩ := Option.map_eq_some_iff.mp h
      exact Or.inl (hc v)
  | get k => cases h; exact Or.inl (hc _ hl)
  | modify f n =>
      cases h
      rcases hc with hc | hc
      · exact Or.inr (Or.inr ⟨f, n, rfl, hc⟩)
      · exact Or.inl hc
  | note m n => cases h; exact Or.inl hc

end Remedy

namespace Repair

variable (r : Repair S ι)

/-- Run from memory `l`, the code keeps the memory sane, and what it leaves
wrong the rest of it mends. So do its handlers and its blocks, from
whatever memory; those for the concurrent queue leave it alone. -/
def Careful : Code S → S.Loc → Prop
  | .done, _ => True
  | .write _ h n, l => (∀ e l', r.sane l' → Careful (h e) l') ∧ Careful n l
  | .ask q h n, l => (∀ a, r.given q a → ∀ l', r.sane l' → Careful (h a) l') ∧ Careful n l
  | .listen _ _ n, l => Careful n l
  | .global b n, l => (b.Bare ∧ ∀ l', r.sane l' → Careful b l') ∧ Careful n l
  | .main b n, l => (∀ l', r.sane l' → Careful b l') ∧ Careful n l
  | .env k, l => ∀ v, Careful (k v) l
  | .get k, l => Careful (k l) l
  | .modify f n, l =>
      (r.sane (f l) ∧ ∀ x, r.wrong x (f l) → r.wrong x l ∨ r.Mends x (n.start (f l))) ∧
        Careful n (f l)
  | .note _ n, l => Careful n l

/-- Careful from whatever memory. -/
abbrev Safe (c : Code S) : Prop := ∀ l, r.sane l → r.Careful c l

variable {r} {x : ι}

/-- Careful code keeps its promises once it is started. -/
theorem mends_start : ∀ {c : Code S} {l : S.Loc}, r.Mends x c → r.sane l → r.Careful c l →
    r.Mends x (c.start l)
  | .done, _, h, _, _ => h
  | .write .., _, h, hl, hc => h.imp_right (mends_start · hl hc.2)
  | .ask .., _, h, hl, hc => h.imp_right (mends_start · hl hc.2)
  | .listen _ _ n, _, h, hl, hc => mends_start (c := n) h hl hc
  | .global .., _, h, hl, hc => h.imp_right (mends_start · hl hc.2)
  | .main .., _, h, hl, hc => h.imp_right (mends_start · hl hc.2)
  | .env _, _, h, hl, hc => fun v => mends_start (h v) hl (hc v)
  | .get k, l, h, hl, hc => mends_start (c := k l) (h l (r.loc_of_sane l hl)) hl hc
  | .modify .., _, h, _, hc => h.imp_right (mends_start · hc.1.1 hc.2)
  | .note _ n, _, h, hl, hc => mends_start (c := n) h hl hc

theorem Careful.start : ∀ {c : Code S} {l : S.Loc}, r.Careful c l → r.Careful (c.start l) l
  | .done, _, h => h
  | .write .., _, h => ⟨h.1, h.2.start⟩
  | .ask .., _, h => ⟨h.1, h.2.start⟩
  | .listen _ _ n, _, h => Careful.start (c := n) h
  | .global .., _, h => ⟨h.1, h.2.start⟩
  | .main .., _, h => ⟨h.1, h.2.start⟩
  | .env _, _, h => fun v => (h v).start
  | .get k, l, h => Careful.start (c := k l) h
  | .modify _ n, _, h => ⟨⟨h.1.1, fun x hx => (h.1.2 x hx).imp_right fun hm => by
      rwa [Code.start_start]⟩, Careful.start (c := n) h.2⟩
  | .note _ n, _, h => Careful.start (c := n) h

theorem Careful.andThen {d : Code S} (hd : r.Safe d) :
    ∀ {c : Code S} {l : S.Loc}, r.sane l → r.Careful c l → r.Careful (c.andThen d) l
  | .done, _, hl, _ => hd _ hl
  | .write .., _, hl, h => ⟨h.1, h.2.andThen hd hl⟩
  | .ask .., _, hl, h => ⟨h.1, h.2.andThen hd hl⟩
  | .listen _ _ n, _, hl, h => Careful.andThen hd (c := n) hl h
  | .global .., _, hl, h => ⟨h.1, h.2.andThen hd hl⟩
  | .main .., _, hl, h => ⟨h.1, h.2.andThen hd hl⟩
  | .env _, _, hl, h => fun v => (h v).andThen hd hl
  | .get k, l, hl, h => Careful.andThen hd (c := k l) hl h
  | .modify .., _, _, h => ⟨⟨h.1.1, fun x hx => (h.1.2 x hx).imp_right (·.start_andThen)⟩,
      h.2.andThen hd h.1.1⟩
  | .note _ n, _, hl, h => Careful.andThen hd (c := n) hl h

theorem Careful.forEach {α : Type} {f : α → Code S} :
    ∀ {l : List α}, (∀ a ∈ l, r.Safe (f a)) → r.Safe (Code.forEach l f)
  | [], _ => fun _ _ => trivial
  | a :: _, h => fun _ hl => Careful.andThen
      (Careful.forEach fun b hb => h b (List.mem_cons_of_mem _ hb)) hl
      (h a List.mem_cons_self _ hl)

theorem careful_get {k : S.Loc → Code S} {l : S.Loc} (h : r.Careful (k l) l) :
    r.Careful (.get k) l := h

/-- A change that keeps the memory as it should be, and leaves nothing wrong
that was not. -/
theorem careful_modify {f : S.Loc → S.Loc} {n : Code S} {l : S.Loc} (hf : r.sane (f l))
    (hwrong : ∀ x, r.wrong x (f l) → r.wrong x l) (hn : r.Careful n (f l)) :
    r.Careful (.modify f n) l := ⟨⟨hf, fun x hx => Or.inl (hwrong x hx)⟩, hn⟩

/-! ## Tended devices -/

variable {sys : System S} {D : Type}

variable (r) in
/-- Whatever waits on the device is safe. -/
structure Queued (dev : Device sys) : Prop where
  inbox : ∀ j ∈ dev.inbox, r.Safe j.code
  pool : ∀ j ∈ dev.pool, j.code.Bare ∧ r.Safe j.code
  writes : ∀ m ∈ dev.writes, ∀ e, r.Safe (m.handler e)
  asks : ∀ m ∈ dev.asks, ∀ a, r.given m.q a → r.Safe (m.handler a)

variable (r) in
/-- What is wrong on the device is due to be put right. -/
structure Tended (dev : Device sys) : Prop extends r.Queued dev where
  sane : r.sane dev.loc
  main : ∀ j, dev.main = some j → j.code.Started ∧ r.Careful j.code dev.loc
  due : ∀ x, r.wrong x dev.loc → r.Due x dev

/-- On an idle device nothing is wrong. -/
theorem Tended.not_wrong {dev : Device sys} (h : r.Tended dev) (hidle : dev.idle = true) :
    ¬r.wrong x dev.loc := fun hx => Remedy.not_due_of_idle hidle (h.due x hx)

theorem tended_of_idle {dev : Device sys} (hidle : dev.idle = true) (hl : r.sane dev.loc)
    (hright : ∀ x, ¬r.wrong x dev.loc) : r.Tended dev := by
  obtain ⟨hj, hw, ha⟩ := Device.idle_iff.mp hidle
  simp only [Device.jobs, List.append_eq_nil_iff, Option.toList_eq_nil_iff] at hj
  refine ⟨⟨?_, ?_, ?_, ?_⟩, hl, ?_, fun x hx => absurd hx (hright x)⟩
  · simp [hj.1.2]
  · simp [hj.2]
  · simp [hw]
  · simp [ha]
  · simp [hj.1.1]

/-! ## One statement -/

variable {t : sys.Tag} {v : S.Env} {srv : sys.Srv} {dev : Device sys} {c : Code S} {u : Turn sys}

/-- What a statement of careful code issues is safe, and what is left is
careful. -/
theorem Careful.exec {l : S.Loc} (hc : r.Careful c l) (hq : r.Queued dev)
    (h : exec t v srv dev c = some u) :
    r.Queued u.device ∧ ((∀ f n, c ≠ .modify f n) → c.Started → u.device.loc = dev.loc ∧
      u.code.Started ∧ r.Careful u.code l) := by
  cases c with
  | done => cases h
  | write w hd n =>
      cases h
      refine ⟨⟨hq.inbox, hq.pool, fun m hm => ?_, hq.asks⟩, fun _ hst => ⟨rfl, hst, hc.2⟩⟩
      rcases List.mem_append.mp hm with hm | hm
      · exact hq.writes m hm
      · rw [List.mem_singleton.mp hm]; exact hc.1
  | ask q hd n =>
      cases h
      refine ⟨⟨hq.inbox, hq.pool, hq.writes, fun m hm => ?_⟩, fun _ hst => ⟨rfl, hst, hc.2⟩⟩
      rcases List.mem_append.mp hm with hm | hm
      · exact hq.asks m hm
      · rw [List.mem_singleton.mp hm]; exact hc.1
  | listen q hd n =>
      cases h
      exact ⟨⟨hq.inbox, hq.pool, hq.writes, hq.asks⟩, fun _ hst => ⟨rfl, hst, hc⟩⟩
  | global b n =>
      cases h
      refine ⟨⟨hq.inbox, fun j hj => ?_, hq.writes, hq.asks⟩, fun _ hst => ⟨rfl, hst, hc.2⟩⟩
      rcases List.mem_append.mp hj with hj | hj
      · exact hq.pool j hj
      · rw [List.mem_singleton.mp hj]; exact hc.1
  | main b n =>
      cases h
      refine ⟨⟨fun j hj => ?_, hq.pool, hq.writes, hq.asks⟩, fun _ hst => ⟨rfl, hst, hc.2⟩⟩
      rcases List.mem_append.mp hj with hj | hj
      · exact hq.inbox j hj
      · rw [List.mem_singleton.mp hj]; exact hc.1
  | env k =>
      obtain ⟨_, -, rfl⟩ := Option.map_eq_some_iff.mp h
      exact ⟨hq, fun _ hst => ⟨rfl, hst v, hc v⟩⟩
  | get k => cases h; exact ⟨hq, fun _ hst => hst.elim⟩
  | modify f n =>
      cases h
      exact ⟨⟨hq.inbox, hq.pool, hq.writes, hq.asks⟩, fun hne _ => absurd rfl (hne f n)⟩
  | note m n => cases h; exact ⟨hq, fun _ hst => ⟨rfl, hst, hc⟩⟩

/-- A block of the concurrent queue stays one. -/
theorem bare_exec (hb : c.Bare) (h : Async.exec t v srv dev c = some u) : u.code.Bare := by
  cases c with
  | done => cases h
  | env k =>
      obtain ⟨_, -, rfl⟩ := Option.map_eq_some_iff.mp h
      exact hb v
  | get k => exact hb.elim
  | modify f n => exact hb.elim
  | _ => cases h; exact hb

/-! ## One step -/

section

variable [DecidableEq D] {d : D} {w w' : World sys D} {e : Event sys D}

/-- What is due stays due until a statement puts it right. -/
theorem due_step (h : r.Due x (w.devices d)) (ht : r.Tended (w.devices d)) (hs : Stepped w e w')
    (hans : ∀ t q a srv, e.Answers w d t q a srv → r.given q a) :
    r.Due x (w'.devices d) ∨ ∃ s v t f n dev, e = .run d s v ∧
      (w.devices d).take s = some (⟨t, .modify f n⟩, dev) ∧ r.cures x f := by
  -- a step on another device leaves this one alone
  have other : ∀ {d' : D} {srv : sys.Srv} {dev : Device sys} {t : sys.Tag} {obs : List (Obs S)},
      w' = w.put d' srv dev t obs → d' ≠ d → r.Due x (w'.devices d) := by
    intro d' srv dev t obs hw hd
    rw [hw, World.put_device_ne w (Ne.symm hd)]; exact h
  cases hs with
  | @act d' a hmain =>
      refine Or.inl ?_
      by_cases hd : d' = d
      · subst hd
        rw [World.put_device]
        refine h.mono (fun j hj => ?_) (fun _ h => h) (fun _ h => h)
        rw [Device.begin_jobs hmain]
        exact List.mem_cons_of_mem _ hj
      · exact other rfl hd
  | @next d' j js hmain hin =>
      refine Or.inl ?_
      by_cases hd : d' = d
      · subst hd
        rw [World.put_device]
        rcases h with ⟨i, hi, hm⟩ | h | h
        · rw [Device.next_jobs hmain hin] at hi
          refine Or.inl ?_
          rw [Device.begin_jobs (by exact hmain)]
          rcases List.mem_cons.mp hi with rfl | hi
          · refine ⟨_, List.mem_cons_self, mends_start hm ht.sane ?_⟩
            exact ht.inbox i (by rw [hin]; exact List.mem_cons_self) _ ht.sane
          · exact ⟨i, List.mem_cons_of_mem _ hi, hm⟩
        · exact Or.inr (Or.inl h)
        · exact Or.inr (Or.inr h)
      · exact other rfl hd
  | @finish d' s v t dev htake =>
      refine Or.inl ?_
      by_cases hd : d' = d
      · subst hd
        rw [World.put_device]
        rcases h with ⟨i, hi, hm⟩ | h | h
        · rcases List.mem_cons.mp ((Device.take_jobs htake).subset hi) with rfl | hi
          · exact hm.elim
          · exact Or.inl ⟨i, hi, hm⟩
        · exact Or.inr (Or.inl (by rw [Device.take_writes htake]; exact h))
        · exact Or.inr (Or.inr (by rw [Device.take_asks htake]; exact h))
      · exact other rfl hd
  | @run d' s v t c dev u htake hexec =>
      by_cases hd : d' = d
      · subst hd
        rw [World.put_device]
        obtain ⟨kj, kw, ka⟩ := Debt.exec_keeps hexec
        have hfree : s = .main → u.device.main = none := fun hm => by
          rw [exec_main hexec]; exact Device.take_free htake hm
        have hback : ∀ j, j = ⟨t, u.code⟩ ∨ j ∈ u.device.jobs →
            j ∈ (u.device.back ⟨t, u.code⟩ s).jobs := fun j hj =>
          (Device.back_jobs hfree).symm.subset (List.mem_cons.mpr hj)
        have hl : r.loc dev.loc := by
          rw [Device.take_loc htake]; exact r.loc_of_sane _ ht.sane
        rcases h with ⟨i, hi, hm⟩ | ⟨m, hm, h⟩ | ⟨m, hm, h⟩
        · rcases List.mem_cons.mp ((Device.take_jobs htake).subset hi) with rfl | hi
          · rcases hm.exec hl hexec with hm | hm | ⟨f, n, rfl, hcure⟩
            · exact Or.inl (Or.inl ⟨_, hback _ (Or.inl rfl), hm⟩)
            · exact Or.inl (hm.mono (fun j hj => hback j (Or.inr hj))
                (fun m hm => by simpa using hm) fun m hm => by simpa using hm)
            · exact Or.inr ⟨s, v, t, f, n, dev, rfl, htake, hcure⟩
          · exact Or.inl (Or.inl ⟨i, hback _ (Or.inr (kj i hi)), hm⟩)
        · exact Or.inl (Or.inr (Or.inl ⟨m, by
            rw [Device.back_writes]; exact kw m (by rwa [Device.take_writes htake]), h⟩))
        · exact Or.inl (Or.inr (Or.inr ⟨m, by
            rw [Device.back_asks]; exact ka m (by rwa [Device.take_asks htake]), h⟩))
      · exact Or.inl (other rfl hd)
  | @commit d' fail m ms hw =>
      refine Or.inl ?_
      by_cases hd : d' = d
      · subst hd
        rw [World.put_device]
        rcases h with ⟨i, hi, h⟩ | ⟨n, hn, h⟩ | ⟨n, hn, h⟩
        · exact Or.inl ⟨i, Device.mem_jobs_arrive.mpr (Or.inr hi), h⟩
        · rw [hw] at hn
          rcases List.mem_cons.mp hn with rfl | hn
          · exact Or.inl ⟨_, Device.mem_jobs_arrive.mpr (Or.inl rfl), h _⟩
          · exact Or.inr (Or.inl ⟨n, hn, h⟩)
        · exact Or.inr (Or.inr ⟨n, hn, h⟩)
      · exact other rfl hd
  | @answer d' i c m a srv hi hv =>
      refine Or.inl ?_
      by_cases hd : d' = d
      · subst hd
        rw [World.put_device]
        rcases h with ⟨j, hj, h⟩ | h | ⟨n, hn, h⟩
        · exact Or.inl ⟨j, Device.mem_jobs_arrive.mpr (Or.inr hj), h⟩
        · exact Or.inr (Or.inl h)
        · obtain ⟨hlt, rfl⟩ := List.getElem?_eq_some_iff.mp hi
          rcases List.mem_cons.mp
            ((List.getElem_cons_eraseIdx_perm hlt).symm.subset hn) with rfl | hn
          · exact Or.inl ⟨_, Device.mem_jobs_arrive.mpr (Or.inl rfl),
              h a (r.ans_of_given _ _ (hans _ _ a srv (.answer hi hv)))⟩
          · exact Or.inr (Or.inr ⟨n, hn, h⟩)
      · exact other rfl hd
  | @notify d' i c m a srv hi hv =>
      refine Or.inl ?_
      by_cases hd : d' = d
      · subst hd
        rw [World.put_device]
        exact h.mono (fun j hj => Device.mem_jobs_arrive.mpr (Or.inr hj)) (fun _ h => h)
          (fun _ h => h)
      · exact other rfl hd

/-- What waits is safe after a step too, and what runs is careful; the one
change a step makes is a statement of the main block. -/
theorem Tended.queued_step (h : r.Tended (w.devices d)) (hs : Stepped w e w')
    (hact : ∀ a, e = .act d a → r.Safe (sys.ui a (w.devices d).loc).2)
    (hans : ∀ t q a srv, e.Answers w d t q a srv → r.given q a) (hnote : ∀ i c, e ≠ .notify d i c) :
    r.Queued (w'.devices d) ∧ r.sane (w'.devices d).loc ∧
      (∀ j, (w'.devices d).main = some j → j.code.Started ∧ r.Careful j.code (w'.devices d).loc) ∧
      ((w'.devices d).loc = (w.devices d).loc ∨ ∃ v t f n dev, e = .run d .main v ∧
        (w.devices d).take .main = some (⟨t, .modify f n⟩, dev) ∧
        (w'.devices d).loc = f (w.devices d).loc ∧
        (w'.devices d).main = some ⟨t, n⟩) := by
  have hq := h.toQueued
  have other : ∀ {d' : D} {srv : sys.Srv} {dev : Device sys} {t : sys.Tag} {obs : List (Obs S)},
      w' = w.put d' srv dev t obs → d' ≠ d → w'.devices d = w.devices d := by
    intro d' srv dev t obs hw hd
    rw [hw, World.put_device_ne w (Ne.symm hd)]
  by_cases hd : e.device = d
  case neg =>
    have hsame : w'.devices d = w.devices d := by
      cases hs <;> exact other rfl hd
    rw [hsame]
    exact ⟨hq, h.sane, h.main, Or.inl rfl⟩
  cases hs with
  | @act d' a hmain =>
      obtain rfl : d' = d := hd
      rw [World.put_device]
      refine ⟨⟨hq.inbox, hq.pool, hq.writes, hq.asks⟩, h.sane, ?_, Or.inl rfl⟩
      rintro j ⟨rfl⟩
      exact ⟨Code.started_start, (hact a rfl _ h.sane).start⟩
  | @next d' j js hmain hin =>
      obtain rfl : d' = d := hd
      rw [World.put_device]
      refine ⟨⟨fun i hi => hq.inbox i ?_, hq.pool, hq.writes, hq.asks⟩, h.sane, ?_, Or.inl rfl⟩
      · rw [hin]; exact List.mem_cons_of_mem _ hi
      · rintro i ⟨rfl⟩
        have hj : j ∈ (w.devices d').inbox := by rw [hin]; exact List.mem_cons_self
        exact ⟨Code.started_start, (hq.inbox j hj _ h.sane).start⟩
  | @finish d' s v t dev htake =>
      obtain rfl : d' = d := hd
      rw [World.put_device]
      cases s with
      | main =>
          obtain ⟨hj, rfl⟩ := Device.take_main htake
          exact ⟨⟨hq.inbox, hq.pool, hq.writes, hq.asks⟩, h.sane, by simp, Or.inl rfl⟩
      | pool i =>
          obtain ⟨hj, rfl⟩ := Device.take_pool htake
          exact ⟨⟨hq.inbox, fun j hj => hq.pool j (List.mem_of_mem_eraseIdx hj), hq.writes,
            hq.asks⟩, h.sane, h.main, Or.inl rfl⟩
  | @run d' s v t c dev u htake hexec =>
      obtain rfl : d' = d := hd
      rw [World.put_device]
      cases s with
      | main =>
          obtain ⟨hj, rfl⟩ := Device.take_main htake
          obtain ⟨hst, hc⟩ := h.main _ hj
          have hq₀ : r.Queued { w.devices d' with main := none } :=
            ⟨hq.inbox, hq.pool, hq.writes, hq.asks⟩
          obtain ⟨hq', hrest⟩ := hc.exec hq₀ hexec
          refine ⟨⟨hq'.inbox, hq'.pool, hq'.writes, hq'.asks⟩, ?_⟩
          by_cases hmod : ∃ f n, c = .modify f n
          · obtain ⟨f, n, rfl⟩ := hmod
            cases hexec
            refine ⟨hc.1.1, ?_, Or.inr ⟨v, t, f, n, _, rfl, htake, rfl, rfl⟩⟩
            rintro j ⟨rfl⟩
            exact ⟨hst, hc.2⟩
          · obtain ⟨hloc, hst', hc'⟩ := hrest (fun f n hcn => hmod ⟨f, n, hcn⟩) hst
            have hl : (u.device.back ⟨t, u.code⟩ .main).loc = (w.devices d').loc := hloc
            rw [hl]
            refine ⟨h.sane, ?_, Or.inl rfl⟩
            rintro j ⟨rfl⟩
            exact ⟨hst', hc'⟩
      | pool i =>
          obtain ⟨hj, rfl⟩ := Device.take_pool htake
          obtain ⟨hb, hc⟩ := hq.pool _ (List.mem_of_getElem? hj)
          have hne : ∀ f n, c ≠ .modify f n := fun f n hcn => by rw [hcn] at hb; exact hb
          have hq₀ : r.Queued { w.devices d' with pool := (w.devices d').pool.eraseIdx i } :=
            ⟨hq.inbox, fun j hj => hq.pool j (List.mem_of_mem_eraseIdx hj), hq.writes, hq.asks⟩
          obtain ⟨hq', hrest⟩ := (hc _ h.sane).exec hq₀ hexec
          have hloc : u.device.loc = (w.devices d').loc := (hrest hne hb.started).1
          have hmain : u.device.main = (w.devices d').main := by rw [exec_main hexec]
          refine ⟨⟨hq'.inbox, fun j hj => ?_, hq'.writes, hq'.asks⟩, ?_, ?_, Or.inl hloc⟩
          · rcases List.mem_append.mp hj with hj | hj
            · exact hq'.pool j hj
            · rw [List.mem_singleton.mp hj]
              exact ⟨bare_exec hb hexec, fun l hl => (((hc l hl).exec hq₀ hexec).2 hne hb.started).2.2⟩
          · show r.sane u.device.loc
            rw [hloc]; exact h.sane
          · intro j hj
            show j.code.Started ∧ r.Careful j.code u.device.loc
            rw [hloc]
            exact h.main j (hmain.symm.trans hj)
  | @commit d' fail m ms hw =>
      obtain rfl : d' = d := hd
      rw [World.put_device]
      refine ⟨⟨fun j hj => ?_, hq.pool, fun n hn => hq.writes n ?_, hq.asks⟩, h.sane, h.main,
        Or.inl rfl⟩
      · rcases List.mem_append.mp hj with hj | hj
        · exact hq.inbox j hj
        · rw [List.mem_singleton.mp hj]
          exact hq.writes m (by rw [hw]; exact List.mem_cons_self) _
      · rw [hw]; exact List.mem_cons_of_mem _ hn
  | @answer d' i c m a srv hi hv =>
      obtain rfl : d' = d := hd
      rw [World.put_device]
      refine ⟨⟨fun j hj => ?_, hq.pool, hq.writes, fun n hn =>
        hq.asks n (List.mem_of_mem_eraseIdx hn)⟩, h.sane, h.main, Or.inl rfl⟩
      rcases List.mem_append.mp hj with hj | hj
      · exact hq.inbox j hj
      · rw [List.mem_singleton.mp hj]
        exact hq.asks m (List.mem_of_getElem? hi) a (hans _ _ a srv (.answer hi hv))
  | @notify d' i c m a srv hi hv => obtain rfl : d' = d := hd; exact absurd rfl (hnote i c)

/-- Whatever is wrong stays due to be put right. -/
theorem Tended.step (h : r.Tended (w.devices d)) (hs : Stepped w e w')
    (hact : ∀ a, e = .act d a → r.Safe (sys.ui a (w.devices d).loc).2)
    (hans : ∀ t q a srv, e.Answers w d t q a srv → r.given q a) (hnote : ∀ i c, e ≠ .notify d i c) :
    r.Tended (w'.devices d) := by
  obtain ⟨hq, hl, hmain, hloc⟩ := h.queued_step hs hact hans hnote
  refine ⟨hq, hl, hmain, fun x hx => ?_⟩
  rcases hloc with hloc | ⟨v, t, f, n, dev, rfl, htake, hloc, hmain'⟩
  · rcases due_step (h.due x (hloc ▸ hx)) h hs hans with hdue | ⟨s, v, t, f, n, dev, rfl, htake, hcure⟩
    · exact hdue
    · -- what puts `x` right would have changed the memory
      have hf : (w'.devices d).loc = f (w.devices d).loc := by
        cases hs with
        | finish htake' => rw [htake] at htake'; cases htake'
        | run htake' hexec =>
            rw [htake] at htake'
            cases htake'
            cases hexec
            rw [World.put_device, Device.back_loc]
            exact congrArg f (Device.take_loc htake)
      rw [hf] at hx
      exact absurd hx (r.cure x f _ hcure h.sane)
  · rw [hloc] at hx
    obtain ⟨hj, rfl⟩ := Device.take_main htake
    obtain ⟨hst, ⟨-, hwrong⟩, -⟩ := h.main _ hj
    rcases hwrong x hx with hx' | hm
    · rcases due_step (h.due x hx') h hs hans with hdue | ⟨s, v', t', f', n', dev', he, htake', hcure⟩
      · exact hdue
      · cases he
        rw [htake] at htake'
        cases htake'
        exact absurd hx (r.cure x f _ hcure h.sane)
    · have hn : n.start (f (w.devices d).loc) = n := Code.Started.start (c := n) hst
      rw [hn] at hm
      refine Or.inl ⟨⟨t, n⟩, ?_, hm⟩
      simp [Device.jobs, hmain']

end

end Repair

end Async
