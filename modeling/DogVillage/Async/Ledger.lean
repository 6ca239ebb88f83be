import DogVillage.Async.Outcome
import Mathlib.Algebra.BigOperators.Finsupp.Basic

/-!
# What is still to be written

Every write stands for marks, as `μ` has it. Code `Enters` a multiset of
marks if its writes stand for just these, whatever it is answered. So
what is outstanding over all devices is known at any moment: an action
adds the marks of its code, a write that is settled is struck out, and no
other step makes a difference.

A mark belongs to a register, and is what the register will hold once the
write is carried out. `Due` says that a register holds a mark, or will:
that the mark is the only one outstanding there.
-/

namespace Async

variable {S : Sig} {X : Type} (μ : S.Write → Multiset X)

/-! ## Code -/

namespace Code

/-- The writes the code comes to issue stand for the marks `m`. -/
def Enters : Code S → Multiset X → Prop
  | .done, m => m = 0
  | .write w h n, m => ∃ m₁ m₂, (∀ r, Enters (h r) m₁) ∧ Enters n m₂ ∧ m = μ w + m₁ + m₂
  | .ask _ h n, m => ∃ m₁ m₂, (∀ a, Enters (h a) m₁) ∧ Enters n m₂ ∧ m = m₁ + m₂
  | .listen _ h n, m => (∀ a, Enters (h a) 0) ∧ Enters n m
  | .global b n, m => ∃ m₁ m₂, Enters b m₁ ∧ Enters n m₂ ∧ m = m₁ + m₂
  | .main b n, m => ∃ m₁ m₂, Enters b m₁ ∧ Enters n m₂ ∧ m = m₁ + m₂
  | .env k, m => ∀ v, Enters (k v) m
  | .get k, m => ∀ l, Enters (k l) m
  | .modify _ n, m => Enters n m
  | .note _ n, m => Enters n m

variable {μ}

theorem Enters.start : ∀ {c : Code S} {m : Multiset X} {l : S.Loc}, c.Enters μ m →
    (c.start l).Enters μ m
  | .done, _, _, h => h
  | .write .., _, _, ⟨m₁, m₂, hh, hn, hm⟩ => ⟨m₁, m₂, hh, hn.start, hm⟩
  | .ask .., _, _, ⟨m₁, m₂, hh, hn, hm⟩ => ⟨m₁, m₂, hh, hn.start, hm⟩
  | .listen .., _, _, ⟨hh, hn⟩ => ⟨hh, hn.start⟩
  | .global .., _, _, ⟨m₁, m₂, hb, hn, hm⟩ => ⟨m₁, m₂, hb, hn.start, hm⟩
  | .main .., _, _, ⟨m₁, m₂, hb, hn, hm⟩ => ⟨m₁, m₂, hb, hn.start, hm⟩
  | .env _, _, _, h => fun v => (h v).start
  | .get _, _, l, h => (h l).start
  | .modify _ n, _, _, h => Enters.start (c := n) h
  | .note _ n, _, _, h => Enters.start (c := n) h

/-- Code whose writes stand for nothing. -/
theorem Writes.enters : ∀ {c : Code S}, c.Writes (fun w => μ w = 0) → c.Enters μ 0
  | .done, _ => rfl
  | .write .., h => ⟨0, 0, fun r => (h.2.1 r).enters, h.2.2.enters, by rw [h.1]; rfl⟩
  | .ask .., h => ⟨0, 0, fun a => (h.1 a).enters, h.2.enters, rfl⟩
  | .listen .., h => ⟨fun a => (h.1 a).enters, h.2.enters⟩
  | .global .., h => ⟨0, 0, h.1.enters, h.2.enters, rfl⟩
  | .main .., h => ⟨0, 0, h.1.enters, h.2.enters, rfl⟩
  | .env _, h => fun v => (h v).enters
  | .get _, h => fun l => (h l).enters
  | .modify _ n, h => Writes.enters (c := n) h
  | .note _ n, h => Writes.enters (c := n) h

/-- Only what the code may write is entered. -/
theorem Enters.mem {Q : X → Prop} (hans : ∀ q, Nonempty (S.Ans q)) (henv : Nonempty S.Env)
    (hloc : Nonempty S.Loc) {x : X} :
    ∀ {c : Code S} {m : Multiset X}, c.Enters μ m → c.Writes (fun w => ∀ x ∈ μ w, Q x) → x ∈ m → Q x
  | .done, m, h, _, hx => by
      obtain rfl : m = 0 := h
      cases Multiset.notMem_zero x hx
  | .write .., _, ⟨_, _, hh, hn, hm⟩, hw, hx => by
      rw [hm, Multiset.mem_add, Multiset.mem_add] at hx
      rcases hx with (hx | hx) | hx
      · exact hw.1 x hx
      · exact (hh none).mem hans henv hloc (hw.2.1 none) hx
      · exact hn.mem hans henv hloc hw.2.2 hx
  | .ask q _ _, _, ⟨_, _, hh, hn, hm⟩, hw, hx => by
      obtain ⟨a⟩ := hans q
      rw [hm, Multiset.mem_add] at hx
      rcases hx with hx | hx
      · exact (hh a).mem hans henv hloc (hw.1 a) hx
      · exact hn.mem hans henv hloc hw.2 hx
  | .listen .., _, h, hw, hx => h.2.mem hans henv hloc hw.2 hx
  | .global .., _, ⟨_, _, hb, hn, hm⟩, hw, hx => by
      rw [hm, Multiset.mem_add] at hx
      rcases hx with hx | hx
      · exact hb.mem hans henv hloc hw.1 hx
      · exact hn.mem hans henv hloc hw.2 hx
  | .main .., _, ⟨_, _, hb, hn, hm⟩, hw, hx => by
      rw [hm, Multiset.mem_add] at hx
      rcases hx with hx | hx
      · exact hb.mem hans henv hloc hw.1 hx
      · exact hn.mem hans henv hloc hw.2 hx
  | .env _, _, h, hw, hx => (h henv.some).mem hans henv hloc (hw henv.some) hx
  | .get _, _, h, hw, hx => (h hloc.some).mem hans henv hloc (hw hloc.some) hx
  | .modify _ n, _, h, hw, hx => Enters.mem (c := n) hans henv hloc h hw hx
  | .note _ n, _, h, hw, hx => Enters.mem (c := n) hans henv hloc h hw hx

end Code

/-! ## Devices -/

variable {sys : System S} {D : Type}

/-- What is outstanding on the device stands for the marks `m`; listeners
stand for none. -/
def Device.Enters (dev : Device sys) (m : Multiset X) : Prop :=
  ∃ m₁ m₂ m₃,
    Sum (fun j : Job sys => j.code.Enters μ) dev.jobs m₁ ∧
    Sum (fun (x : Sent sys) m => ∃ m', (∀ r, (x.handler r).Enters μ m') ∧ m = μ x.write + m')
      dev.writes m₂ ∧
    Sum (fun (x : Asked sys) m => ∀ a, (x.handler a).Enters μ m) dev.asks m₃ ∧
    (∀ x ∈ dev.listeners, ∀ a, (x.handler a).Enters μ 0) ∧ m = m₁ + m₂ + m₃

namespace Device

variable {μ} {dev : Device sys} {m : Multiset X}

theorem Enters.of_idle (h : dev.idle = true) (hl : dev.listeners = []) : dev.Enters μ 0 := by
  obtain ⟨hj, hw, ha⟩ := Device.idle_iff.mp h
  exact ⟨0, 0, 0, by rw [hj]; rfl, by rw [hw]; rfl, by rw [ha]; rfl, by simp [hl], rfl⟩

/-- A block more, and its marks. -/
theorem enters_job {dev' : Device sys} {j : Job sys} (hj : dev'.jobs.Perm (j :: dev.jobs))
    (hw : dev'.writes = dev.writes) (ha : dev'.asks = dev.asks)
    (hl : dev'.listeners = dev.listeners) :
    dev'.Enters μ m ↔ ∃ m₁ m₂, j.code.Enters μ m₁ ∧ dev.Enters μ m₂ ∧ m = m₁ + m₂ := by
  simp only [Device.Enters, hw, ha, hl]
  constructor
  · rintro ⟨m₁, m₂, m₃, h₁, h₂, h₃, hli, rfl⟩
    obtain ⟨m₄, m₅, h₄, h₅, rfl⟩ := h₁.perm hj
    exact ⟨m₄, m₅ + m₂ + m₃, h₄, ⟨m₅, m₂, m₃, h₅, h₂, h₃, hli, rfl⟩, by abel⟩
  · rintro ⟨m₄, _, h₄, ⟨m₅, m₂, m₃, h₅, h₂, h₃, hli, rfl⟩, rfl⟩
    exact ⟨m₄ + m₅, m₂, m₃, Sum.perm hj.symm ⟨m₄, m₅, h₄, h₅, rfl⟩, h₂, h₃, hli, by abel⟩

theorem enters_begin {j : Job sys} (hmain : dev.main = none) :
    (dev.begin j).Enters μ m ↔
      ∃ m₁ m₂, (j.code.start dev.loc).Enters μ m₁ ∧ dev.Enters μ m₂ ∧ m = m₁ + m₂ :=
  enters_job (List.Perm.of_eq (begin_jobs hmain)) rfl rfl rfl

theorem enters_arrive {j : Job sys} :
    (dev.arrive j).Enters μ m ↔ ∃ m₁ m₂, j.code.Enters μ m₁ ∧ dev.Enters μ m₂ ∧ m = m₁ + m₂ :=
  enters_job arrive_jobs rfl rfl rfl

theorem enters_take {s : Slot} {j : Job sys} {dev' : Device sys} (h : dev.take s = some (j, dev')) :
    dev.Enters μ m ↔ ∃ m₁ m₂, j.code.Enters μ m₁ ∧ dev'.Enters μ m₂ ∧ m = m₁ + m₂ :=
  enters_job (take_jobs h) (take_writes h).symm (take_asks h).symm (take_listeners h).symm

theorem enters_back {s : Slot} {j : Job sys} (hfree : s = .main → dev.main = none) :
    (dev.back j s).Enters μ m ↔ ∃ m₁ m₂, j.code.Enters μ m₁ ∧ dev.Enters μ m₂ ∧ m = m₁ + m₂ :=
  enters_job (back_jobs hfree) back_writes back_asks back_listeners

theorem Enters.mem {Q : X → Prop} (hans : ∀ q, Nonempty (S.Ans q)) (henv : Nonempty S.Env)
    (h : dev.Enters μ m) (hw : dev.Writes fun w => ∀ x ∈ μ w, Q x) {x : X} (hx : x ∈ m) : Q x := by
  have hloc : Nonempty S.Loc := ⟨dev.loc⟩
  obtain ⟨m₁, m₂, m₃, h₁, h₂, h₃, -, rfl⟩ := h
  simp only [Multiset.mem_add] at hx
  rcases hx with (hx | hx) | hx
  · obtain ⟨j, hj, m', hm', hx⟩ := h₁.mem hx
    exact hm'.mem hans henv hloc (hw.jobs j hj) hx
  · obtain ⟨y, hy, _, ⟨m', hm', rfl⟩, hx⟩ := h₂.mem hx
    rcases Multiset.mem_add.mp hx with hx | hx
    · exact (hw.writes y hy).1 x hx
    · exact (hm' none).mem hans henv hloc ((hw.writes y hy).2 none) hx
  · obtain ⟨y, hy, m', hm', hx⟩ := h₃.mem hx
    obtain ⟨a⟩ := hans y.q
    exact (hm' a).mem hans henv hloc (hw.asks y hy a) hx

end Device

/-- A statement leaves the marks as they are. -/
theorem Code.Enters.exec {μ : S.Write → Multiset X} {t : sys.Tag} {v : S.Env} {srv : sys.Srv}
    {dev : Device sys} {c : Code S} {r : Turn sys} {m m' : Multiset X} (hc : c.Enters μ m)
    (hdev : dev.Enters μ m') (h : Async.exec t v srv dev c = some r) :
    ∃ m₁ m₂, r.code.Enters μ m₁ ∧ r.device.Enters μ m₂ ∧ m + m' = m₁ + m₂ := by
  cases c with
  | done => cases h
  | write w hd n =>
      cases h
      obtain ⟨m₁, m₂, hh, hn, rfl⟩ := hc
      obtain ⟨a, b, c, ha, hb, hc, hl, rfl⟩ := hdev
      have hb' := Sum.append.mpr
        ⟨b, _, hb, (Sum.singleton (a := ⟨t, w, hd⟩)).mpr ⟨m₁, hh, rfl⟩, rfl⟩
      exact ⟨m₂, _, hn, ⟨a, _, c, ha, hb', hc, hl, rfl⟩, by abel⟩
  | ask q hd n =>
      cases h
      obtain ⟨m₁, m₂, hh, hn, rfl⟩ := hc
      obtain ⟨a, b, c, ha, hb, hc, hl, rfl⟩ := hdev
      have hc' := Sum.append.mpr ⟨c, _, hc, (Sum.singleton (a := ⟨t, q, hd⟩)).mpr hh, rfl⟩
      exact ⟨m₂, _, hn, ⟨a, b, _, ha, hb, hc', hl, rfl⟩, by abel⟩
  | listen q hd n =>
      cases h
      obtain ⟨a, b, c, ha, hb, hcc, hl, rfl⟩ := hdev
      refine ⟨m, _, hc.2, ⟨a, b, c, ha, hb, hcc, fun x hx => ?_, rfl⟩, rfl⟩
      rcases List.mem_append.mp hx with hx | hx
      · exact hl x hx
      · rw [List.mem_singleton.mp hx]
        exact hc.1
  | global b n =>
      cases h
      obtain ⟨m₁, m₂, hb, hn, rfl⟩ := hc
      have hp : Device.jobs { dev with pool := dev.pool ++ [⟨t, b⟩] } |>.Perm
          (⟨t, b⟩ :: dev.jobs) := by
        simp only [Device.jobs, ← List.append_assoc]
        exact List.perm_append_singleton _ _
      exact ⟨m₂, _, hn, (Device.enters_job hp rfl rfl rfl).mpr ⟨m₁, m', hb, hdev, rfl⟩, by abel⟩
  | main b n =>
      cases h
      obtain ⟨m₁, m₂, hb, hn, rfl⟩ := hc
      exact ⟨m₂, _, hn, Device.enters_arrive.mpr ⟨m₁, m', hb, hdev, rfl⟩, by abel⟩
  | env k =>
      obtain ⟨_, -, rfl⟩ := Option.map_eq_some_iff.mp h
      exact ⟨m, m', hc v, hdev, rfl⟩
  | get k => cases h; exact ⟨m, m', hc _, hdev, rfl⟩
  | modify f n => cases h; exact ⟨m, m', hc, hdev, rfl⟩
  | note x n => cases h; exact ⟨m, m', hc, hdev, rfl⟩

/-! ## Worlds -/

/-- The marks outstanding on all devices. -/
def World.Enters (w : World sys D) (M : Multiset X) : Prop :=
  ∃ pend : D →₀ Multiset X, (∀ d, (w.devices d).Enters μ (pend d)) ∧ M = pend.sum fun _ m => m

namespace World

variable {μ} {w w' : World sys D} {e : Event sys D} {M : Multiset X}

theorem Enters.of_idle (h : ∀ d, (w.devices d).idle = true)
    (hl : ∀ d, (w.devices d).listeners = []) :
    w.Enters μ 0 :=
  ⟨0, fun d => Device.Enters.of_idle (h d) (hl d), by simp⟩

theorem Enters.mem {Q : X → Prop} (hans : ∀ q, Nonempty (S.Ans q)) (henv : Nonempty S.Env)
    (h : w.Enters μ M) (hw : ∀ d, (w.devices d).Writes fun w => ∀ x ∈ μ w, Q x) {x : X}
    (hx : x ∈ M) : Q x := by
  obtain ⟨pend, hpend, rfl⟩ := h
  obtain ⟨d, -, hx⟩ := Multiset.mem_sum.mp hx
  exact (hpend d).mem hans henv (hw d) hx

variable [DecidableEq D]

/-- Where one device changes, so do its marks. -/
theorem Enters.put (h : w.Enters μ M) (d : D) : ∃ m N, (w.devices d).Enters μ m ∧ M = m + N ∧
    ∀ {srv : sys.Srv} {dev : Device sys} {t : sys.Tag} {obs : List (Obs S)} {m' : Multiset X},
      dev.Enters μ m' → (w.put d srv dev t obs).Enters μ (m' + N) := by
  obtain ⟨pend, hpend, rfl⟩ := h
  refine ⟨pend d, (pend.erase d).sum fun _ m => m, hpend d,
    (Finsupp.add_sum_erase' pend d (fun _ m => m) fun _ => rfl).symm, ?_⟩
  intro srv dev t obs m' hdev
  refine ⟨pend.update d m', fun d' => ?_, ?_⟩
  · by_cases hd : d' = d
    · subst hd
      rw [World.put_device, Finsupp.coe_update, Function.update_self]
      exact hdev
    · rw [World.put_device_ne w hd, Finsupp.coe_update, Function.update_of_ne hd]
      exact hpend d'
  · rw [← Finsupp.add_sum_erase' (pend.update d m') d (fun _ m => m) fun _ => rfl,
      Finsupp.erase_update_eq_erase, Finsupp.coe_update, Function.update_self]

/-- What a step does to the marks. -/
inductive EntersStep (μ : S.Write → Multiset X) (w : World sys D) (e : Event sys D)
    (w' : World sys D) (M : Multiset X) : Prop
  | act {d a} (he : e = .act d a)
      (h : ∀ m, ((sys.ui a (w.devices d).loc).2.start (w.devices d).loc).Enters μ m →
        w'.Enters μ (m + M))
  | commit {d fail x xs M'} (he : e = .commit d fail) (hw : (w.devices d).writes = x :: xs)
      (hM : M = μ x.write + M') (h : w'.Enters μ M')
  | other (hact : ∀ d a, e ≠ .act d a) (hcommit : ∀ d fail, e ≠ .commit d fail)
      (h : w'.Enters μ M)

theorem Enters.step (h : w.Enters μ M) (hs : Stepped w e w') : EntersStep μ w e w' M := by
  cases hs with
  | @act d a hmain =>
      obtain ⟨m, N, hm, rfl, hput⟩ := h.put d
      refine .act rfl fun m' hm' => ?_
      rw [← add_assoc]
      exact hput ((Device.enters_begin hmain).mpr ⟨m', m, hm', hm, rfl⟩)
  | @next d j js hmain hin =>
      obtain ⟨m, N, hm, rfl, hput⟩ := h.put d
      refine .other (by simp) (by simp) (hput ?_)
      obtain ⟨m₁, m₂, h₁, h₂, rfl⟩ := (Device.enters_job
        (List.Perm.of_eq (Device.next_jobs hmain hin)) rfl rfl rfl).mp hm
      exact (Device.enters_begin (by exact hmain)).mpr ⟨m₁, m₂, h₁.start, h₂, rfl⟩
  | @finish d s v t dev htake =>
      obtain ⟨m, N, hm, rfl, hput⟩ := h.put d
      obtain ⟨_, m₂, rfl, h₂, rfl⟩ := (Device.enters_take htake).mp hm
      rw [zero_add]
      exact .other (by simp) (by simp) (hput h₂)
  | @run d s v t c dev r htake hexec =>
      obtain ⟨m, N, hm, rfl, hput⟩ := h.put d
      have hfree : s = .main → r.device.main = none := fun h => by
        rw [exec_main hexec]; exact Device.take_free htake h
      obtain ⟨m₁, m₂, h₁, h₂, rfl⟩ := (Device.enters_take htake).mp hm
      obtain ⟨m₃, m₄, h₃, h₄, heq⟩ := h₁.exec h₂ hexec
      rw [heq]
      exact .other (by simp) (by simp) (hput ((Device.enters_back hfree).mpr ⟨m₃, m₄, h₃, h₄, rfl⟩))
  | @commit d fail x xs hw =>
      obtain ⟨m, N, hm, rfl, hput⟩ := h.put d
      obtain ⟨a, _, c, ha, hb, hc, hl, rfl⟩ := hm
      rw [hw] at hb
      obtain ⟨_, b, ⟨m', hh, rfl⟩, hb, rfl⟩ := hb
      have hrest : Device.Enters μ { w.devices d with writes := xs } (a + b + c) :=
        ⟨a, b, c, ha, hb, hc, hl, rfl⟩
      refine .commit rfl hw ?_ (hput (Device.enters_arrive.mpr ⟨m', _, hh _, hrest, rfl⟩))
      abel
  | @answer d i c x a srv hi hv =>
      obtain ⟨m, N, hm, rfl, hput⟩ := h.put d
      obtain ⟨m₁, m₂, m₃, h₁, h₂, h₃, hl, rfl⟩ := hm
      obtain ⟨hlt, rfl⟩ := List.getElem?_eq_some_iff.mp hi
      obtain ⟨m₄, m₅, h₄, h₅, rfl⟩ := h₃.perm (List.getElem_cons_eraseIdx_perm hlt).symm
      refine .other (by simp) (by simp) ?_
      have hrest : Device.Enters μ
          { w.devices d with asks := (w.devices d).asks.eraseIdx i } (m₁ + m₂ + m₅) :=
        ⟨m₁, m₂, m₅, h₁, h₂, h₅, hl, rfl⟩
      rw [show m₁ + m₂ + (m₄ + m₅) = m₄ + (m₁ + m₂ + m₅) by abel]
      exact hput (Device.enters_arrive.mpr ⟨m₄, _, h₄ a, hrest, rfl⟩)
  | @notify d i c x a srv hi hv =>
      obtain ⟨m, N, hm, rfl, hput⟩ := h.put d
      obtain ⟨_, _, _, _, _, _, hl, _⟩ := id hm
      refine .other (by simp) (by simp) (hput (Device.enters_arrive.mpr ⟨0, m, ?_, hm, by simp⟩))
      exact hl x (List.mem_of_getElem? hi) a

end World

/-! ## Registers -/

section

variable {R : Type} [DecidableEq R] {reg : X → R} {M m : Multiset X} {x y : X} {held held' : Prop}

/-- The marks of one register. -/
def atReg (reg : X → R) (r : R) (M : Multiset X) : Multiset X := M.filter (reg · = r)

/-- The register of `x` will hold `x`, or does. -/
def Due (reg : X → R) (M : Multiset X) (x : X) (held : Prop) : Prop :=
  atReg reg (reg x) M = {x} ∨ atReg reg (reg x) M = 0 ∧ held

@[simp] theorem atReg_add (r : R) : atReg reg r (m + M) = atReg reg r m + atReg reg r M :=
  Multiset.filter_add _ _ _

@[simp] theorem atReg_cons (r : R) :
    atReg reg r (y ::ₘ M) = if reg y = r then y ::ₘ atReg reg r M else atReg reg r M := by
  split
  · next h => exact Multiset.filter_cons_of_pos _ h
  · next h => exact Multiset.filter_cons_of_neg _ h

@[simp] theorem atReg_zero (r : R) : atReg reg r (0 : Multiset X) = 0 := rfl

@[simp] theorem atReg_singleton (r : R) :
    atReg reg r {y} = if reg y = r then {y} else 0 := Multiset.filter_singleton _

theorem atReg_eq_zero {r : R} (h : ∀ y ∈ M, reg y ≠ r) : atReg reg r M = 0 :=
  Multiset.filter_eq_nil.mpr h

/-- Nothing of the register is outstanding. -/
theorem Due.settled (h : Due reg M x held) (hM : atReg reg (reg x) M = 0) : held := by
  rcases h with h | ⟨-, h⟩
  · rw [hM] at h
    cases Multiset.singleton_ne_zero x h.symm
  · exact h

/-- Marks of other registers. -/
theorem Due.add (h : Due reg M x held) (hm : atReg reg (reg x) m = 0) : Due reg (m + M) x held := by
  rwa [Due, atReg_add, hm, zero_add]

/-- A new mark, where none of its register is outstanding. -/
theorem Due.new (hM : atReg reg (reg x) M = 0) (hm : atReg reg (reg x) m = {x}) :
    Due reg (m + M) x held :=
  Or.inl (by rw [atReg_add, hm, hM, add_zero])

/-- A mark is struck out. -/
theorem Due.strike (h : Due reg (y ::ₘ M) x held) (hx : y = x → held')
    (hother : reg y ≠ reg x → held → held') : Due reg M x held' := by
  rw [Due, atReg_cons] at h
  split at h
  · next hr =>
      rcases h with h | ⟨h, -⟩
      · obtain ⟨hxy, hM⟩ := (Multiset.singleton_eq_cons_iff _).mp h.symm
        exact Or.inr ⟨hM, hx hxy.symm⟩
      · cases Multiset.cons_ne_zero h
  · next hr => exact h.imp_right (And.imp_right (hother hr))

theorem Due.imp (h : Due reg M x held) (hh : held → held') : Due reg M x held' :=
  h.imp_right (And.imp_right hh)

end

end Async
