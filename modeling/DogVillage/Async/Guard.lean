import DogVillage.Async.Run

/-!
# Rely and guarantee for client code

A `Spec` says which writes and calls code running under a tag may issue,
with which handlers, and what it may count on: what holds of a device's memory, of an answer
when it arrives, of a value handed out, and how the world may move while
something with its tag is outstanding (`rely`). What can be said is said
about a `view` of the server and the log.

`Ok` checks code against a spec by recursion on the code: every handler
is checked at every view the code can rely on to be in when it runs.
`Inv` says that all outstanding code is `Ok`; `Inv.step` is the one
induction over the events, so a development only checks the code of each
user action once.
-/

namespace Async

variable {S : Sig}

structure Spec (sys : System S) (D G : Type) where
  view : sys.Srv → List (Entry sys D) → G
  rely : D → sys.Tag → G → G → Prop
  loc : G → D → S.Loc → Prop
  /-- What a block counts on when it reads the memory; the run's condition
  has to provide it. -/
  sees : D → sys.Tag → S.Loc → Prop
  /-- A write may be issued, with the handler it carries. -/
  write : G → D → sys.Tag → S.Write → (Option S.Err → Code S) → Prop
  ask : G → D → sys.Tag → (q : S.Ask) → (S.Ans q → Code S) → Prop
  listen : G → D → sys.Tag → (q : S.Ask) → (S.Ans q → Code S) → Prop
  /-- What holds once a write was issued. -/
  issued : G → D → sys.Tag → S.Write → Prop := fun _ _ _ _ => True
  answer : G → D → sys.Tag → (q : S.Ask) → S.Ans q → Prop
  env : G → D → sys.Tag → S.Env → Prop
  rely_refl : ∀ d t g, rely d t g g
  rely_trans : ∀ d t g₁ g₂ g₃, rely d t g₁ g₂ → rely d t g₂ g₃ → rely d t g₁ g₃
  loc_stable : ∀ d t g g' l, rely d t g g' → loc g d l → loc g' d l
  write_stable : ∀ d t g g' w h, rely d t g g' → write g d t w h → write g' d t w h
  ask_stable : ∀ d t g g' q h, rely d t g g' → ask g d t q h → ask g' d t q h
  listen_stable : ∀ d t g g' q h, rely d t g g' → listen g d t q h → listen g' d t q h

variable {sys : System S} {D G : Type}

namespace Spec

variable (sp : Spec sys D G)

def of (w : World sys D) : G := sp.view w.server w.log

/-- Code that keeps the spec from view `g` on. -/
def Ok (d : D) (t : sys.Tag) : Code S → G → Prop
  | .done, _ => True
  | .write w h n, g =>
      sp.write g d t w h ∧ (∀ g', sp.rely d t g g' → ∀ r, Ok d t (h r) g') ∧
        (∀ g', sp.rely d t g g' → sp.issued g' d t w → Ok d t n g')
  | .ask q h n, g =>
      sp.ask g d t q h ∧
        (∀ g', sp.rely d t g g' → ∀ a, sp.answer g' d t q a → Ok d t (h a) g') ∧ Ok d t n g
  | .listen q h n, g =>
      sp.listen g d t q h ∧
        (∀ g', sp.rely d t g g' → ∀ a, sp.answer g' d t q a → Ok d t (h a) g') ∧ Ok d t n g
  | .global b n, g => Ok d t b g ∧ Ok d t n g
  | .main b n, g => Ok d t b g ∧ Ok d t n g
  | .env k, g => ∀ g', sp.rely d t g g' → ∀ v, sp.env g' d t v → Ok d t (k v) g'
  | .get k, g => ∀ g', sp.rely d t g g' → ∀ l, sp.loc g' d l → sp.sees d t l → Ok d t (k l) g'
  | .modify f n, g =>
      (∀ g', sp.rely d t g g' → ∀ l, sp.loc g' d l → sp.loc g' d (f l)) ∧
        (∀ l, sp.sees d t l → sp.sees d t (f l)) ∧ Ok d t n g
  | .note _ n, g => Ok d t n g

variable {sp} {d : D} {t : sys.Tag}

/-- Code that is fine now is fine after whatever it relies on. -/
theorem Ok.mono {g g' : G} (hr : sp.rely d t g g') :
    ∀ {c : Code S}, sp.Ok d t c g → sp.Ok d t c g'
  | .done, _ => trivial
  | .write .., hc =>
      ⟨sp.write_stable _ _ _ _ _ _ hr hc.1,
        fun g₂ h₂ => hc.2.1 g₂ (sp.rely_trans _ _ _ _ _ hr h₂),
        fun g₂ h₂ => hc.2.2 g₂ (sp.rely_trans _ _ _ _ _ hr h₂)⟩
  | .ask .., hc =>
      ⟨sp.ask_stable _ _ _ _ _ _ hr hc.1,
        fun g₂ h₂ => hc.2.1 g₂ (sp.rely_trans _ _ _ _ _ hr h₂), Ok.mono hr hc.2.2⟩
  | .listen .., hc =>
      ⟨sp.listen_stable _ _ _ _ _ _ hr hc.1,
        fun g₂ h₂ => hc.2.1 g₂ (sp.rely_trans _ _ _ _ _ hr h₂), Ok.mono hr hc.2.2⟩
  | .global .., hc => ⟨Ok.mono hr hc.1, Ok.mono hr hc.2⟩
  | .main .., hc => ⟨Ok.mono hr hc.1, Ok.mono hr hc.2⟩
  | .env _, hc => fun g₂ h₂ => hc g₂ (sp.rely_trans _ _ _ _ _ hr h₂)
  | .get _, hc => fun g₂ h₂ => hc g₂ (sp.rely_trans _ _ _ _ _ hr h₂)
  | .modify .., hc =>
      ⟨fun g₂ h₂ => hc.1 g₂ (sp.rely_trans _ _ _ _ _ hr h₂), hc.2.1, Ok.mono hr hc.2.2⟩
  | .note _ n, hc => Ok.mono (c := n) hr hc

/-- Settling what a block reads keeps it fine. -/
theorem Ok.start {g : G} :
    ∀ {c : Code S} {l : S.Loc}, sp.Ok d t c g → sp.loc g d l → sp.sees d t l →
      sp.Ok d t (c.start l) g
  | .done, _, _, _, _ => trivial
  | .write .., _, hc, hl, hv => ⟨hc.1, hc.2.1, fun g' hr hi =>
      Ok.start (g := g') (hc.2.2 g' hr hi) (sp.loc_stable _ _ _ _ _ hr hl) hv⟩
  | .ask .., _, hc, hl, hv => ⟨hc.1, hc.2.1, Ok.start hc.2.2 hl hv⟩
  | .listen .., _, hc, hl, hv => ⟨hc.1, hc.2.1, Ok.start hc.2.2 hl hv⟩
  | .global .., _, hc, hl, hv => ⟨hc.1, Ok.start hc.2 hl hv⟩
  | .main .., _, hc, hl, hv => ⟨hc.1, Ok.start hc.2 hl hv⟩
  | .env _, _, hc, hl, hv => fun g' hr v hvv =>
      Ok.start (g := g') (hc g' hr v hvv) (sp.loc_stable _ _ _ _ _ hr hl) hv
  | .get k, l, hc, hl, hv => Ok.start (c := k l) (hc g (sp.rely_refl _ _ _) l hl hv) hl hv
  | .modify .., l, hc, hl, hv =>
      ⟨hc.1, hc.2.1, Ok.start hc.2.2 (hc.1 g (sp.rely_refl _ _ _) l hl) (hc.2.1 l hv)⟩
  | .note _ n, _, hc, hl, hv => Ok.start (c := n) hc hl hv

theorem Ok.andThen {k : Code S} :
    ∀ {c : Code S} {g : G}, sp.Ok d t c g → sp.Ok d t k g → sp.Ok d t (c.andThen k) g
  | .done, _, _, hk => hk
  | .write .., _, hc, hk => ⟨hc.1, hc.2.1, fun g' hr hi =>
      Ok.andThen (hc.2.2 g' hr hi) (Ok.mono hr hk)⟩
  | .ask .., _, hc, hk => ⟨hc.1, hc.2.1, Ok.andThen hc.2.2 hk⟩
  | .listen .., _, hc, hk => ⟨hc.1, hc.2.1, Ok.andThen hc.2.2 hk⟩
  | .global .., _, hc, hk => ⟨hc.1, Ok.andThen hc.2 hk⟩
  | .main .., _, hc, hk => ⟨hc.1, Ok.andThen hc.2 hk⟩
  | .env _, _, hc, hk => fun g' hr v hv =>
      Ok.andThen (hc g' hr v hv) (Ok.mono hr hk)
  | .get _, _, hc, hk => fun g' hr l hl hv =>
      Ok.andThen (hc g' hr l hl hv) (Ok.mono hr hk)
  | .modify .., _, hc, hk => ⟨hc.1, hc.2.1, Ok.andThen hc.2.2 hk⟩
  | .note _ n, _, hc, hk => Ok.andThen (c := n) hc hk

theorem Ok.forEach {α : Type} {g : G} {f : α → Code S} :
    ∀ {l : List α}, (∀ a ∈ l, sp.Ok d t (f a) g) → sp.Ok d t (Code.forEach l f) g
  | [], _ => trivial
  | a :: _, h =>
      Ok.andThen (h a List.mem_cons_self)
        (Ok.forEach fun b hb => h b (List.mem_cons_of_mem _ hb))

/-! ## The invariant -/

def OkSent (sp : Spec sys D G) (d : D) (m : Sent sys) (g : G) : Prop :=
  sp.write g d m.tag m.write m.handler ∧
    ∀ g', sp.rely d m.tag g g' → ∀ r, sp.Ok d m.tag (m.handler r) g'

/-- An outstanding call, of the kind `may` allows. -/
def OkAsked (sp : Spec sys D G)
    (may : G → D → sys.Tag → (q : S.Ask) → (S.Ans q → Code S) → Prop) (d : D)
    (m : Asked sys) (g : G) : Prop :=
  may g d m.tag m.q m.handler ∧
    ∀ g', sp.rely d m.tag g g' → ∀ a, sp.answer g' d m.tag m.q a →
      sp.Ok d m.tag (m.handler a) g'

/-- Everything held on a device keeps the spec. -/
structure OkDevice (sp : Spec sys D G) (d : D) (dev : Device sys) (g : G) : Prop where
  jobs : ∀ j ∈ dev.jobs, sp.Ok d j.tag j.code g
  writes : ∀ m ∈ dev.writes, sp.OkSent d m g
  asks : ∀ m ∈ dev.asks, sp.OkAsked sp.ask d m g
  listeners : ∀ m ∈ dev.listeners, sp.OkAsked sp.listen d m g

structure Inv (sp : Spec sys D G) (w : World sys D) : Prop where
  loc : ∀ d, sp.loc (sp.of w) d (w.devices d).loc
  held : ∀ d, sp.OkDevice d (w.devices d) (sp.of w)

theorem OkSent.mono {m : Sent sys} {g g' : G} (hr : sp.rely d m.tag g g')
    (h : sp.OkSent d m g) : sp.OkSent d m g' :=
  ⟨sp.write_stable _ _ _ _ _ _ hr h.1, fun g₂ h₂ => h.2 g₂ (sp.rely_trans _ _ _ _ _ hr h₂)⟩

theorem OkAsked.mono {may : G → D → sys.Tag → (q : S.Ask) → (S.Ans q → Code S) → Prop}
    {m : Asked sys} {g g' : G}
    (hmay : may g d m.tag m.q m.handler → may g' d m.tag m.q m.handler) (hr : sp.rely d m.tag g g')
    (h : sp.OkAsked may d m g) : sp.OkAsked may d m g' :=
  ⟨hmay h.1, fun g₂ h₂ => h.2 g₂ (sp.rely_trans _ _ _ _ _ hr h₂)⟩

theorem OkDevice.mono {dev : Device sys} {g g' : G}
    (hr : ∀ t ∈ dev.tags, sp.rely d t g g') (h : sp.OkDevice d dev g) :
    sp.OkDevice d dev g' where
  jobs j hj := (h.jobs j hj).mono (hr _ (by
    simp only [Device.tags, List.mem_append, List.mem_map]
    exact Or.inl (Or.inl (Or.inl ⟨j, hj, rfl⟩))))
  writes m hm := (h.writes m hm).mono (hr _ (by
    simp only [Device.tags, List.mem_append, List.mem_map]
    exact Or.inl (Or.inl (Or.inr ⟨m, hm, rfl⟩))))
  asks m hm :=
    have hrm := hr m.tag (by
      simp only [Device.tags, List.mem_append, List.mem_map]
      exact Or.inl (Or.inr ⟨m, hm, rfl⟩))
    (h.asks m hm).mono (sp.ask_stable _ _ _ _ _ _ hrm) hrm
  listeners m hm :=
    have hrm := hr m.tag (by
      simp only [Device.tags, List.mem_append, List.mem_map]
      exact Or.inr ⟨m, hm, rfl⟩)
    (h.listeners m hm).mono (sp.listen_stable _ _ _ _ _ _ hrm) hrm

/-- One statement: what is left of the block and what it added are fine. -/
theorem Ok.exec {v : S.Env} {srv : sys.Srv} {dev : Device sys} {c : Code S} {r : Turn sys}
    {g : G} (hc : sp.Ok d t c g) (hdev : sp.OkDevice d dev g) (hloc : sp.loc g d dev.loc)
    (hsees : sp.sees d t dev.loc)
    (henv : ∀ k srv', c = .env k → sys.supply v srv = some srv' → sp.env g d t v)
    (hiss : ∀ w hd n, c = .write w hd n → sp.issued g d t w)
    (h : exec t v srv dev c = some r) :
    sp.Ok d t r.code g ∧ sp.OkDevice d r.device g ∧ sp.loc g d r.device.loc := by
  have hrefl : sp.rely d t g g := sp.rely_refl _ _ _
  cases c with
  | done => cases h
  | write w hd n =>
      cases h
      refine ⟨hc.2.2 g hrefl (hiss w hd n rfl),
        ⟨hdev.jobs, fun m hm => ?_, hdev.asks, hdev.listeners⟩, hloc⟩
      rcases List.mem_append.mp hm with hm | hm
      · exact hdev.writes m hm
      · rw [List.mem_singleton.mp hm]; exact ⟨hc.1, hc.2.1⟩
  | ask q hd n =>
      cases h
      refine ⟨hc.2.2, ⟨hdev.jobs, hdev.writes, fun m hm => ?_, hdev.listeners⟩, hloc⟩
      rcases List.mem_append.mp hm with hm | hm
      · exact hdev.asks m hm
      · rw [List.mem_singleton.mp hm]; exact ⟨hc.1, hc.2.1⟩
  | listen q hd n =>
      cases h
      refine ⟨hc.2.2, ⟨hdev.jobs, hdev.writes, hdev.asks, fun m hm => ?_⟩, hloc⟩
      rcases List.mem_append.mp hm with hm | hm
      · exact hdev.listeners m hm
      · rw [List.mem_singleton.mp hm]; exact ⟨hc.1, hc.2.1⟩
  | global b n =>
      cases h
      refine ⟨hc.2, ⟨fun j hj => ?_, hdev.writes, hdev.asks, hdev.listeners⟩, hloc⟩
      simp only [Device.jobs, ← List.append_assoc, List.mem_append, List.mem_singleton] at hj
      rcases hj with hj | rfl
      · exact hdev.jobs j (by simpa [Device.jobs, or_assoc] using hj)
      · exact hc.1
  | main b n =>
      cases h
      refine ⟨hc.2, ⟨fun j hj => ?_, hdev.writes, hdev.asks, hdev.listeners⟩, hloc⟩
      simp only [Device.jobs, List.mem_append, List.mem_singleton] at hj
      rcases hj with (hj | hj | rfl) | hj
      · exact hdev.jobs j (by simp [Device.jobs, hj])
      · exact hdev.jobs j (by simp [Device.jobs, hj])
      · exact hc.1
      · exact hdev.jobs j (by simp [Device.jobs, hj])
  | env k =>
      obtain ⟨srv', hs, rfl⟩ := Option.map_eq_some_iff.mp h
      exact ⟨hc g hrefl v (henv k srv' rfl hs), hdev, hloc⟩
  | get k =>
      cases h
      exact ⟨hc g hrefl _ hloc hsees, hdev, hloc⟩
  | modify f n =>
      cases h
      exact ⟨hc.2.2, ⟨hdev.jobs, hdev.writes, hdev.asks, hdev.listeners⟩,
        hc.1 g hrefl _ hloc⟩
  | note m n => cases h; exact ⟨hc, hdev, hloc⟩

theorem OkDevice.arrive {dev : Device sys} {j : Job sys} {g : G} (h : sp.OkDevice d dev g)
    (hj : sp.Ok d j.tag j.code g) : sp.OkDevice d (dev.arrive j) g where
  jobs i hi := by
    rcases Device.mem_jobs_arrive.mp hi with rfl | hi
    · exact hj
    · exact h.jobs i hi
  writes := h.writes
  asks := h.asks
  listeners := h.listeners

end Spec

section

variable [DecidableEq D]

namespace Spec

variable {sp : Spec sys D G}

/-- The rely-guarantee rule: one step keeps `Inv`, if the step is one the
outstanding code relies on, the new user action's code is fine, and the
memory, the answers and the values handed out are as the spec has them. -/
theorem Inv.step {w w' : World sys D} {e : Event sys D} (hi : sp.Inv w)
    (hs : Stepped w e w')
    (hrely : ∀ d t, w.Active d t → sp.rely d t (sp.of w) (sp.of w'))
    (hloc : ∀ d l, sp.loc (sp.of w) d l → sp.loc (sp.of w') d l)
    (hact : ∀ d a, e = .act d a →
      sp.Ok d (sys.ui a (w.devices d).loc).1
        ((sys.ui a (w.devices d).loc).2.start (w.devices d).loc) (sp.of w'))
    (hsees : ∀ d t, e.Turns w d t → sp.sees d t (w.devices d).loc)
    (henv : ∀ d t v, e.Supplies w d t v → sp.env (sp.of w') d t v)
    (hiss : ∀ d t wr, e.Issues w d t wr → sp.issued (sp.of w') d t wr)
    (hans : ∀ d t q a srv, e.Answers w d t q a srv → sp.answer (sp.of w') d t q a) :
    sp.Inv w' := by
  have hold : ∀ d, sp.OkDevice d (w.devices d) (sp.of w') := fun d =>
    (hi.held d).mono fun t ht => hrely d t ht
  have hlocs : ∀ d, sp.loc (sp.of w') d (w.devices d).loc := fun d => hloc d _ (hi.loc d)
  -- a step touches one device: it is enough to look at that one
  have key : ∀ {d : D} {srv : sys.Srv} {dev : Device sys} {t : sys.Tag} {obs : List (Obs S)},
      w' = w.put d srv dev t obs → sp.OkDevice d dev (sp.of w') →
      sp.loc (sp.of w') d dev.loc → sp.Inv w' := by
    intro d srv dev t obs hw hdev hl
    refine ⟨fun d' => ?_, fun d' => ?_⟩ <;> by_cases hd : d' = d
    · subst hd; rw [hw, World.put_device, ← hw]; exact hl
    · rw [hw, World.put_device_ne w hd, ← hw]; exact hlocs d'
    · subst hd; rw [hw, World.put_device, ← hw]; exact hdev
    · rw [hw, World.put_device_ne w hd, ← hw]; exact hold d'
  have taken : ∀ {d : D} {s : Slot} {j : Job sys} {dev : Device sys},
      (w.devices d).take s = some (j, dev) →
      sp.Ok d j.tag j.code (sp.of w') ∧ sp.OkDevice d dev (sp.of w') := by
    intro d s j dev htake
    have hp := Device.take_jobs htake
    have hd := hold d
    refine ⟨hd.jobs j (hp.symm.subset List.mem_cons_self),
      fun i hi => hd.jobs i (hp.symm.subset (List.mem_cons_of_mem _ hi)), ?_, ?_, ?_⟩
    · rw [Device.take_writes htake]; exact hd.writes
    · rw [Device.take_asks htake]; exact hd.asks
    · rw [Device.take_listeners htake]; exact hd.listeners
  cases hs with
  | @act d a hmain =>
      refine key rfl ⟨fun j hj => ?_, (hold d).writes, (hold d).asks, (hold d).listeners⟩
        (hlocs d)
      rw [Device.begin_jobs hmain] at hj
      rcases List.mem_cons.mp hj with rfl | hj
      · exact hact d a rfl
      · exact (hold d).jobs j hj
  | @next d j js hmain hin =>
      have hjobs := Device.next_jobs hmain hin
      refine key rfl ⟨fun i hi => ?_, (hold d).writes, (hold d).asks, (hold d).listeners⟩
        (hlocs d)
      rw [Device.begin_jobs (by exact hmain)] at hi
      rcases List.mem_cons.mp hi with rfl | hi
      · exact ((hold d).jobs j (by rw [hjobs]; exact List.mem_cons_self)).start (hlocs d)
          (hsees d _ (.next hin))
      · exact (hold d).jobs i (by rw [hjobs]; exact List.mem_cons_of_mem _ hi)
  | @finish d s v t dev htake =>
      exact key rfl (taken htake).2 (by rw [Device.take_loc htake]; exact hlocs d)
  | @run d s v t c dev r htake hexec =>
      obtain ⟨hc, hdev⟩ := taken htake
      have hl : (w.devices d).loc = dev.loc := (Device.take_loc htake).symm
      obtain ⟨hc', hdev', hloc'⟩ := hc.exec hdev (hl ▸ hlocs d)
        (hl ▸ hsees d t (.run htake))
        (fun k srv' hk h => henv d t v (by cases hk; exact .run htake h))
        (fun wr hd n h => hiss d t wr (by cases h; exact .run htake)) hexec
      have hfree : s = .main → r.device.main = none := fun h => by
        rw [exec_main hexec]; exact Device.take_free htake h
      refine key rfl ⟨fun j hj => ?_, ?_, ?_, ?_⟩ (by rw [Device.back_loc]; exact hloc')
      · rcases List.mem_cons.mp ((Device.back_jobs hfree).subset hj) with rfl | hj
        · exact hc'
        · exact hdev'.jobs j hj
      · rw [Device.back_writes]; exact hdev'.writes
      · rw [Device.back_asks]; exact hdev'.asks
      · rw [Device.back_listeners]; exact hdev'.listeners
  | @commit d fail m ms hw =>
      have hm : sp.OkSent d m _ := (hold d).writes m (by rw [hw]; exact List.mem_cons_self)
      refine key rfl (OkDevice.arrive ⟨(hold d).jobs, fun n hn => ?_, (hold d).asks,
        (hold d).listeners⟩ (hm.2 _ (sp.rely_refl _ _ _) _)) (hlocs d)
      exact (hold d).writes n (by rw [hw]; exact List.mem_cons_of_mem _ hn)
  | @answer d i c m a srv hi hs =>
      have hm : sp.OkAsked sp.ask d m _ := (hold d).asks m (List.mem_of_getElem? hi)
      refine key rfl (OkDevice.arrive ⟨(hold d).jobs, (hold d).writes, fun n hn => ?_,
        (hold d).listeners⟩ (hm.2 _ (sp.rely_refl _ _ _) a (hans _ _ _ _ _ (.answer hi hs))))
        (hlocs d)
      exact (hold d).asks n (List.mem_of_mem_eraseIdx hn)
  | @notify d i c m a srv hi hs =>
      have hm : sp.OkAsked sp.listen d m _ := (hold d).listeners m (List.mem_of_getElem? hi)
      exact key rfl ((hold d).arrive
        (hm.2 _ (sp.rely_refl _ _ _) a (hans _ _ _ _ _ (.notify hi hs)))) (hlocs d)

end Spec

end

end Async
