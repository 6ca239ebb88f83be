import DogVillage.Async.Reach

/-!
# What a write leaves to do

`Leaves L R` bounds by a recursion over the code what it goes on with
whenever it comes to issue a write: as long as the memory is as `L` has it
when a block reads it, what follows a write is as `R` has it. So what code
owes may depend on what it has just written, under an id it was handed out
on the way.
-/

namespace Async

variable {S : Sig}

namespace Code

def Leaves (L : S.Loc → Prop) (R : S.Write → Code S → Prop) : Code S → Prop
  | .done => True
  | .write w h n => R w n ∧ (∀ r, Leaves L R (h r)) ∧ Leaves L R n
  | .ask _ h n => (∀ a, Leaves L R (h a)) ∧ Leaves L R n
  | .listen _ h n => (∀ a, Leaves L R (h a)) ∧ Leaves L R n
  | .global b n => Leaves L R b ∧ Leaves L R n
  | .main b n => Leaves L R b ∧ Leaves L R n
  | .env k => ∀ v, Leaves L R (k v)
  | .get k => ∀ l, L l → Leaves L R (k l)
  | .modify f n => (∀ l, L l → L (f l)) ∧ Leaves L R n
  | .note _ n => Leaves L R n

variable {L : S.Loc → Prop} {R : S.Write → Code S → Prop}

/-- Where what a block reads when it starts makes no difference to `R`. -/
theorem Leaves.start (hR : ∀ w n l, L l → R w n → R w (n.start l)) :
    ∀ {c : Code S} {l : S.Loc}, c.Leaves L R → L l → (c.start l).Leaves L R
  | .done, _, _, _ => trivial
  | .write .., _, h, hl => ⟨hR _ _ _ hl h.1, h.2.1, h.2.2.start hR hl⟩
  | .ask .., _, h, hl => ⟨h.1, h.2.start hR hl⟩
  | .listen .., _, h, hl => ⟨h.1, h.2.start hR hl⟩
  | .global .., _, h, hl => ⟨h.1, h.2.start hR hl⟩
  | .main .., _, h, hl => ⟨h.1, h.2.start hR hl⟩
  | .env _, _, h, hl => fun v => (h v).start hR hl
  | .get _, l, h, hl => (h l hl).start hR hl
  | .modify .., l, h, hl => ⟨h.1, h.2.start hR (h.1 l hl)⟩
  | .note _ n, _, h, hl => Leaves.start (c := n) hR h hl

/-- Code whose writes may be followed by anything. -/
theorem Under.leaves {P : Obs S → Prop} (hL : ∀ f, P (.changed f) → ∀ l, L l → L (f l))
    (hR : ∀ w n, P (.issued w) → R w n) :
    ∀ {c : Code S}, c.Under (fun _ => True) (fun _ _ => True) P → c.Leaves L R
  | .done, _ => trivial
  | .write .., h =>
      ⟨hR _ _ h.1, fun r => (h.2.1 r).2.leaves hL hR, h.2.2.leaves hL hR⟩
  | .ask .., h => ⟨fun a => (h.1 a trivial).2.leaves hL hR, h.2.leaves hL hR⟩
  | .listen .., h => ⟨fun a => (h.1 a trivial).2.leaves hL hR, h.2.leaves hL hR⟩
  | .global .., h => ⟨h.1.leaves hL hR, h.2.leaves hL hR⟩
  | .main .., h => ⟨h.1.leaves hL hR, h.2.leaves hL hR⟩
  | .env _, h => fun v => (h v).2.leaves hL hR
  | .get _, h => fun l _ => (h l trivial).leaves hL hR
  | .modify .., h => ⟨hL _ h.1, h.2.leaves hL hR⟩
  | .note .., h => h.2.leaves hL hR

end Code

variable {sys : System S} {D : Type}

/-- Whatever is outstanding on the device, or a listener, leaves what `R`
says of its tag. -/
structure Device.Leaves (L : sys.Tag → S.Loc → Prop) (R : sys.Tag → S.Write → Code S → Prop)
    (dev : Device sys) : Prop where
  jobs : ∀ j ∈ dev.jobs, j.code.Leaves (L j.tag) (R j.tag)
  writes : ∀ m ∈ dev.writes, ∀ r, (m.handler r).Leaves (L m.tag) (R m.tag)
  asks : ∀ m ∈ dev.asks, ∀ a, (m.handler a).Leaves (L m.tag) (R m.tag)
  listeners : ∀ m ∈ dev.listeners, ∀ a, (m.handler a).Leaves (L m.tag) (R m.tag)

section

variable {L : sys.Tag → S.Loc → Prop} {R : sys.Tag → S.Write → Code S → Prop} {dev : Device sys}

theorem Device.Leaves.of_idle (h : dev.idle = true) (hl : dev.listeners = []) :
    dev.Leaves L R := by
  obtain ⟨hjobs, hwrites, hasks⟩ := Device.idle_iff.mp h
  constructor <;> simp [hjobs, hwrites, hasks, hl]

theorem Device.Leaves.arrive {j : Job sys} (h : dev.Leaves L R)
    (hj : j.code.Leaves (L j.tag) (R j.tag)) : (dev.arrive j).Leaves L R where
  jobs i hi := by
    rcases Device.mem_jobs_arrive.mp hi with rfl | hi
    · exact hj
    · exact h.jobs i hi
  writes := h.writes
  asks := h.asks
  listeners := h.listeners

theorem Device.Leaves.take {s : Slot} {j : Job sys} {dev' : Device sys} (h : dev.Leaves L R)
    (htake : dev.take s = some (j, dev')) :
    j.code.Leaves (L j.tag) (R j.tag) ∧ dev'.Leaves L R := by
  have hp := Device.take_jobs htake
  refine ⟨h.jobs j (hp.symm.subset List.mem_cons_self),
    fun i hi => h.jobs i (hp.symm.subset (List.mem_cons_of_mem _ hi)), ?_, ?_, ?_⟩
  · rw [Device.take_writes htake]; exact h.writes
  · rw [Device.take_asks htake]; exact h.asks
  · rw [Device.take_listeners htake]; exact h.listeners

theorem Code.Leaves.exec {t : sys.Tag} {v : S.Env} {srv : sys.Srv} {c : Code S} {r : Turn sys}
    (hc : c.Leaves (L t) (R t)) (hdev : dev.Leaves L R) (hl : L t dev.loc)
    (h : Async.exec t v srv dev c = some r) :
    r.code.Leaves (L t) (R t) ∧ r.device.Leaves L R := by
  cases c with
  | done => cases h
  | write w hd n =>
      cases h
      refine ⟨hc.2.2, hdev.jobs, fun m hm => ?_, hdev.asks, hdev.listeners⟩
      rcases List.mem_append.mp hm with hm | hm
      · exact hdev.writes m hm
      · rw [List.mem_singleton.mp hm]; exact hc.2.1
  | ask q hd n =>
      cases h
      refine ⟨hc.2, hdev.jobs, hdev.writes, fun m hm => ?_, hdev.listeners⟩
      rcases List.mem_append.mp hm with hm | hm
      · exact hdev.asks m hm
      · rw [List.mem_singleton.mp hm]; exact hc.1
  | listen q hd n =>
      cases h
      refine ⟨hc.2, hdev.jobs, hdev.writes, hdev.asks, fun m hm => ?_⟩
      rcases List.mem_append.mp hm with hm | hm
      · exact hdev.listeners m hm
      · rw [List.mem_singleton.mp hm]; exact hc.1
  | global b n =>
      cases h
      refine ⟨hc.2, fun j hj => ?_, hdev.writes, hdev.asks, hdev.listeners⟩
      simp only [Device.jobs, ← List.append_assoc] at hj
      rcases List.mem_append.mp hj with hj | hj
      · exact hdev.jobs j hj
      · rw [List.mem_singleton.mp hj]; exact hc.1
  | main b n =>
      cases h
      exact ⟨hc.2, hdev.arrive (j := ⟨t, b⟩) hc.1⟩
  | env k =>
      obtain ⟨_, -, rfl⟩ := Option.map_eq_some_iff.mp h
      exact ⟨hc v, hdev⟩
  | get k => cases h; exact ⟨hc _ hl, hdev⟩
  | modify f n => cases h; exact ⟨hc.2, hdev.jobs, hdev.writes, hdev.asks, hdev.listeners⟩
  | note x n => cases h; exact ⟨hc, hdev⟩

end

/-- Whatever is outstanding anywhere leaves what `R` says of its tag. -/
def World.Leaves (L : sys.Tag → S.Loc → Prop) (R : sys.Tag → S.Write → Code S → Prop)
    (w : World sys D) : Prop :=
  ∀ d, (w.devices d).Leaves L R

section

variable [DecidableEq D] {L : sys.Tag → S.Loc → Prop} {R : sys.Tag → S.Write → Code S → Prop}
  {w w' : World sys D} {e : Event sys D} {d : D} {t : sys.Tag}

/-- One step: what an action starts leaves what it should, and so does what
was outstanding. -/
theorem World.Leaves.step (hR : ∀ t w n l, L t l → R t w n → R t w (n.start l))
    (h : w.Leaves L R) (hs : Stepped w e w')
    (hact : ∀ d a, e = .act d a → ((sys.ui a (w.devices d).loc).2.start (w.devices d).loc).Leaves
      (L (sys.ui a (w.devices d).loc).1) (R (sys.ui a (w.devices d).loc).1))
    (hturns : ∀ d t, e.Turns w d t → L t (w.devices d).loc) : w'.Leaves L R := by
  -- a step touches one device
  have key : ∀ {d : D} {srv : sys.Srv} {dev : Device sys} {t : sys.Tag} {obs : List (Obs S)},
      w' = w.put d srv dev t obs → dev.Leaves L R → w'.Leaves L R := by
    intro d srv dev t obs hw hdev d'
    by_cases hd : d' = d
    · subst hd; rw [hw, World.put_device]; exact hdev
    · rw [hw, World.put_device_ne w hd]; exact h d'
  cases hs with
  | @act d a hmain =>
      refine key rfl ⟨fun j hj => ?_, (h d).writes, (h d).asks, (h d).listeners⟩
      rw [Device.begin_jobs hmain] at hj
      rcases List.mem_cons.mp hj with rfl | hj
      · exact hact d a rfl
      · exact (h d).jobs j hj
  | @next d j js hmain hin =>
      have hjobs := Device.next_jobs hmain hin
      refine key rfl ⟨fun i hi => ?_, (h d).writes, (h d).asks, (h d).listeners⟩
      rw [Device.begin_jobs (by exact hmain)] at hi
      rcases List.mem_cons.mp hi with rfl | hi
      · exact ((h d).jobs j (by rw [hjobs]; exact List.mem_cons_self)).start (hR j.tag)
          (hturns d j.tag (.next hin))
      · exact (h d).jobs i (by rw [hjobs]; exact List.mem_cons_of_mem _ hi)
  | @finish d s v t dev htake => exact key rfl ((h d).take htake).2
  | @run d s v t c dev r htake hexec =>
      obtain ⟨hc, hdev⟩ := (h d).take htake
      have hl : L t dev.loc := by
        rw [Device.take_loc htake]; exact hturns d t (.run htake)
      obtain ⟨hc', hdev'⟩ := hc.exec hdev hl hexec
      have hfree : s = .main → r.device.main = none := fun h => by
        rw [exec_main hexec]; exact Device.take_free htake h
      refine key rfl ⟨fun j hj => ?_, ?_, ?_, ?_⟩
      · rcases List.mem_cons.mp ((Device.back_jobs hfree).subset hj) with rfl | hj
        · exact hc'
        · exact hdev'.jobs j hj
      · rw [Device.back_writes]; exact hdev'.writes
      · rw [Device.back_asks]; exact hdev'.asks
      · rw [Device.back_listeners]; exact hdev'.listeners
  | @commit d fail m ms hw =>
      refine key rfl (Device.Leaves.arrive ⟨(h d).jobs, fun n hn => ?_, (h d).asks,
        (h d).listeners⟩ ((h d).writes m (by rw [hw]; exact List.mem_cons_self) _))
      exact (h d).writes n (by rw [hw]; exact List.mem_cons_of_mem _ hn)
  | @answer d i c m a srv hi hv =>
      refine key rfl (Device.Leaves.arrive ⟨(h d).jobs, (h d).writes, fun n hn => ?_,
        (h d).listeners⟩ ((h d).asks m (List.mem_of_getElem? hi) a))
      exact (h d).asks n (List.mem_of_mem_eraseIdx hn)
  | @notify d i c m a srv hi hv =>
      exact key rfl ((h d).arrive ((h d).listeners m (List.mem_of_getElem? hi) a))

/-- After a write what it leaves is still to run. -/
theorem World.Leaves.issued (h : w.Leaves L R) (hs : Stepped w e w') {wr : S.Write}
    (hissues : e.Issues w d t wr) :
    ∃ n, ⟨t, n⟩ ∈ (w'.devices d).jobs ∧ R t wr n := by
  cases hissues with
  | @run _ s _ _ _ _ _ _ htake =>
      cases hs with
      | finish htake' => rw [htake] at htake'; cases htake'
      | @run _ _ _ _ _ dev r htake' hexec =>
          have hfree : s = .main → r.device.main = none := fun hm => by
            rw [exec_main hexec]; exact Device.take_free htake' hm
          rw [htake] at htake'
          cases htake'
          cases hexec
          refine ⟨_, ?_, ((h _).take htake).1.1⟩
          rw [World.put_device]
          exact (Device.back_jobs hfree).symm.subset List.mem_cons_self

end

end Async
