import DogVillage.Async.Guard

/-!
# What code can come to

`Under L A P` bounds by a recursion over the code what it may ever show: as
long as the memory is as `L` has it and calls are answered as `A` has it,
every observation meets `P`. A run whose actions start with such code, and
whose answers are as `A` has it, logs nothing else, and changes the memory
in no other way; so a static look at each action's code holds of every
interleaving.
-/

namespace Async

variable {S : Sig}

namespace Code

def Under (L : S.Loc → Prop) (A : (q : S.Ask) → S.Ans q → Prop) (P : Obs S → Prop) :
    Code S → Prop
  | .done => True
  | .write w h n => P (.issued w) ∧ (∀ r, P (.wrote w r) ∧ Under L A P (h r)) ∧ Under L A P n
  | .ask q h n => (∀ a, A q a → P (.answered q a) ∧ Under L A P (h a)) ∧ Under L A P n
  | .listen q h n => (∀ a, A q a → P (.answered q a) ∧ Under L A P (h a)) ∧ Under L A P n
  | .global b n => Under L A P b ∧ Under L A P n
  | .main b n => Under L A P b ∧ Under L A P n
  | .env k => ∀ v, P (.supplied v) ∧ Under L A P (k v)
  | .get k => ∀ l, L l → Under L A P (k l)
  | .modify f n => P (.changed f) ∧ Under L A P n
  | .note x n => P (.noted x) ∧ Under L A P n

variable {L : S.Loc → Prop} {A : (q : S.Ask) → S.Ans q → Prop} {P Q : Obs S → Prop}

theorem Under.mono (hPQ : ∀ o, P o → Q o) : ∀ {c : Code S}, c.Under L A P → c.Under L A Q
  | .done, _ => trivial
  | .write .., h => ⟨hPQ _ h.1, fun r => ⟨hPQ _ (h.2.1 r).1, (h.2.1 r).2.mono hPQ⟩, h.2.2.mono hPQ⟩
  | .ask .., h => ⟨fun a ha => ⟨hPQ _ (h.1 a ha).1, (h.1 a ha).2.mono hPQ⟩, h.2.mono hPQ⟩
  | .listen .., h => ⟨fun a ha => ⟨hPQ _ (h.1 a ha).1, (h.1 a ha).2.mono hPQ⟩, h.2.mono hPQ⟩
  | .global .., h => ⟨h.1.mono hPQ, h.2.mono hPQ⟩
  | .main .., h => ⟨h.1.mono hPQ, h.2.mono hPQ⟩
  | .env _, h => fun v => ⟨hPQ _ (h v).1, (h v).2.mono hPQ⟩
  | .get _, h => fun l hl => (h l hl).mono hPQ
  | .modify .., h => ⟨hPQ _ h.1, h.2.mono hPQ⟩
  | .note .., h => ⟨hPQ _ h.1, h.2.mono hPQ⟩

theorem Under.weaken {L' : S.Loc → Prop} {A' : (q : S.Ask) → S.Ans q → Prop}
    (hL : ∀ l, L' l → L l) (hA : ∀ q a, A' q a → A q a) :
    ∀ {c : Code S}, c.Under L A P → c.Under L' A' P
  | .done, _ => trivial
  | .write .., h => ⟨h.1, fun r => ⟨(h.2.1 r).1, (h.2.1 r).2.weaken hL hA⟩, h.2.2.weaken hL hA⟩
  | .ask .., h =>
      ⟨fun a ha => ⟨(h.1 a (hA _ a ha)).1, (h.1 a (hA _ a ha)).2.weaken hL hA⟩, h.2.weaken hL hA⟩
  | .listen .., h =>
      ⟨fun a ha => ⟨(h.1 a (hA _ a ha)).1, (h.1 a (hA _ a ha)).2.weaken hL hA⟩, h.2.weaken hL hA⟩
  | .global .., h => ⟨h.1.weaken hL hA, h.2.weaken hL hA⟩
  | .main .., h => ⟨h.1.weaken hL hA, h.2.weaken hL hA⟩
  | .env _, h => fun v => ⟨(h v).1, (h v).2.weaken hL hA⟩
  | .get _, h => fun l hl => (h l (hL l hl)).weaken hL hA
  | .modify .., h => ⟨h.1, h.2.weaken hL hA⟩
  | .note .., h => ⟨h.1, h.2.weaken hL hA⟩

theorem Under.and : ∀ {c : Code S}, c.Under L A P → c.Under L A Q →
    c.Under L A fun o => P o ∧ Q o
  | .done, _, _ => trivial
  | .write .., h, h' => ⟨⟨h.1, h'.1⟩, fun r => ⟨⟨(h.2.1 r).1, (h'.2.1 r).1⟩,
      (h.2.1 r).2.and (h'.2.1 r).2⟩, h.2.2.and h'.2.2⟩
  | .ask .., h, h' => ⟨fun a ha => ⟨⟨(h.1 a ha).1, (h'.1 a ha).1⟩,
      (h.1 a ha).2.and (h'.1 a ha).2⟩, h.2.and h'.2⟩
  | .listen .., h, h' => ⟨fun a ha => ⟨⟨(h.1 a ha).1, (h'.1 a ha).1⟩,
      (h.1 a ha).2.and (h'.1 a ha).2⟩, h.2.and h'.2⟩
  | .global .., h, h' => ⟨h.1.and h'.1, h.2.and h'.2⟩
  | .main .., h, h' => ⟨h.1.and h'.1, h.2.and h'.2⟩
  | .env _, h, h' => fun v => ⟨⟨(h v).1, (h' v).1⟩, (h v).2.and (h' v).2⟩
  | .get _, h, h' => fun l hl => (h l hl).and (h' l hl)
  | .modify .., h, h' => ⟨⟨h.1, h'.1⟩, h.2.and h'.2⟩
  | .note .., h, h' => ⟨⟨h.1, h'.1⟩, h.2.and h'.2⟩

theorem Under.get {k : S.Loc → Code S} (h : ∀ l, L l → (k l).Under L A P) :
    (Code.get k).Under L A P := h

theorem Under.andThen {d : Code S} (hd : d.Under L A P) : ∀ {c : Code S}, c.Under L A P →
    (c.andThen d).Under L A P
  | .done, _ => hd
  | .write .., h => ⟨h.1, h.2.1, hd.andThen h.2.2⟩
  | .ask .., h => ⟨h.1, hd.andThen h.2⟩
  | .listen .., h => ⟨h.1, hd.andThen h.2⟩
  | .global .., h => ⟨h.1, hd.andThen h.2⟩
  | .main .., h => ⟨h.1, hd.andThen h.2⟩
  | .env _, h => fun v => ⟨(h v).1, hd.andThen (h v).2⟩
  | .get _, h => fun l hl => hd.andThen (h l hl)
  | .modify .., h => ⟨h.1, hd.andThen h.2⟩
  | .note .., h => ⟨h.1, hd.andThen h.2⟩

theorem Under.forEach {α : Type} {f : α → Code S} :
    ∀ {l : List α}, (∀ a ∈ l, (f a).Under L A P) → (forEach l f).Under L A P
  | [], _ => trivial
  | _ :: _, h =>
      (Under.forEach fun b hb => h b (List.mem_cons_of_mem _ hb)).andThen
        (h _ List.mem_cons_self)

theorem Under.start (hL : ∀ f, P (.changed f) → ∀ l, L l → L (f l)) :
    ∀ {c : Code S} {l : S.Loc}, c.Under L A P → L l → (c.start l).Under L A P
  | .done, _, _, _ => trivial
  | .write .., _, h, hl => ⟨h.1, h.2.1, h.2.2.start hL hl⟩
  | .ask .., _, h, hl => ⟨h.1, h.2.start hL hl⟩
  | .listen .., _, h, hl => ⟨h.1, h.2.start hL hl⟩
  | .global .., _, h, hl => ⟨h.1, h.2.start hL hl⟩
  | .main .., _, h, hl => ⟨h.1, h.2.start hL hl⟩
  | .env _, _, h, hl => fun v => ⟨(h v).1, (h v).2.start hL hl⟩
  | .get _, l, h, hl => (h l hl).start hL hl
  | .modify f _, _, h, hl => ⟨h.1, h.2.start hL (hL f h.1 _ hl)⟩
  | .note .., _, h, hl => ⟨h.1, h.2.start hL hl⟩

/-- Where only writes matter, the writes the code may issue are enough. -/
theorem Writes.under {W : S.Write → Prop} (hW : ∀ w, W w → P (.issued w) ∧ ∀ r, P (.wrote w r))
    (hans : ∀ q a, P (.answered q a)) (henv : ∀ v, P (.supplied v))
    (hmod : ∀ f, P (.changed f)) (hnote : ∀ x, P (.noted x)) :
    ∀ {c : Code S}, c.Writes W → c.Under L A P
  | .done, _ => trivial
  | .write .., h => ⟨(hW _ h.1).1, fun r => ⟨(hW _ h.1).2 r,
      (h.2.1 r).under hW hans henv hmod hnote⟩, h.2.2.under hW hans henv hmod hnote⟩
  | .ask .., h => ⟨fun a _ => ⟨hans _ a, (h.1 a).under hW hans henv hmod hnote⟩,
      h.2.under hW hans henv hmod hnote⟩
  | .listen .., h => ⟨fun a _ => ⟨hans _ a, (h.1 a).under hW hans henv hmod hnote⟩,
      h.2.under hW hans henv hmod hnote⟩
  | .global .., h => ⟨h.1.under hW hans henv hmod hnote, h.2.under hW hans henv hmod hnote⟩
  | .main .., h => ⟨h.1.under hW hans henv hmod hnote, h.2.under hW hans henv hmod hnote⟩
  | .env _, h => fun v => ⟨henv v, (h v).under hW hans henv hmod hnote⟩
  | .get _, h => fun l _ => (h l).under hW hans henv hmod hnote
  | .modify f n, h => ⟨hmod f, Writes.under (c := n) hW hans henv hmod hnote h⟩
  | .note x n, h => ⟨hnote x, Writes.under (c := n) hW hans henv hmod hnote h⟩

/-- What the code may issue, from what it may show. -/
theorem Under.writes {W : S.Write → Prop} (hW : ∀ w, P (.issued w) → W w) :
    ∀ {c : Code S}, c.Under (fun _ => True) (fun _ _ => True) P → c.Writes W
  | .done, _ => trivial
  | .write .., h => ⟨hW _ h.1, fun r => (h.2.1 r).2.writes hW, h.2.2.writes hW⟩
  | .ask .., h => ⟨fun a => (h.1 a trivial).2.writes hW, h.2.writes hW⟩
  | .listen .., h => ⟨fun a => (h.1 a trivial).2.writes hW, h.2.writes hW⟩
  | .global .., h => ⟨h.1.writes hW, h.2.writes hW⟩
  | .main .., h => ⟨h.1.writes hW, h.2.writes hW⟩
  | .env _, h => fun v => (h v).2.writes hW
  | .get _, h => fun l => (h l trivial).writes hW
  | .modify _ n, h => Under.writes (c := n) hW h.2
  | .note _ n, h => Under.writes (c := n) hW h.2

end Code

variable {sys : System S} {D : Type}

/-- Code that only shows what a spec allows keeps the spec. -/
theorem Spec.Ok.of_under {G : Type} {sp : Spec sys D G} {d : D} {t : sys.Tag} {L : S.Loc → Prop}
    {A : (q : S.Ask) → S.Ans q → Prop} {P : Obs S → Prop}
    (hsees : ∀ g l, sp.loc g d l → sp.sees d t l → L l)
    (hans : ∀ g q a, sp.answer g d t q a → A q a)
    (hwrite : ∀ g w h, P (.issued w) → sp.write g d t w h)
    (hask : ∀ g q h, sp.ask g d t q h) (hlisten : ∀ g q h, sp.listen g d t q h)
    (hmod : ∀ f, P (.changed f) → (∀ g l, sp.loc g d l → sp.loc g d (f l)) ∧
      ∀ l, sp.sees d t l → sp.sees d t (f l)) :
    ∀ {c : Code S} {g : G}, c.Under L A P → sp.Ok d t c g
  | .done, _, _ => trivial
  | .write .., _, h => ⟨hwrite _ _ _ h.1,
      fun _ _ r => of_under hsees hans hwrite hask hlisten hmod (h.2.1 r).2,
      fun _ _ _ => of_under hsees hans hwrite hask hlisten hmod h.2.2⟩
  | .ask .., _, h => ⟨hask _ _ _,
      fun g' _ a ha => of_under hsees hans hwrite hask hlisten hmod (h.1 a (hans g' _ a ha)).2,
      of_under hsees hans hwrite hask hlisten hmod h.2⟩
  | .listen .., _, h => ⟨hlisten _ _ _,
      fun g' _ a ha => of_under hsees hans hwrite hask hlisten hmod (h.1 a (hans g' _ a ha)).2,
      of_under hsees hans hwrite hask hlisten hmod h.2⟩
  | .global .., _, h => ⟨of_under hsees hans hwrite hask hlisten hmod h.1,
      of_under hsees hans hwrite hask hlisten hmod h.2⟩
  | .main .., _, h => ⟨of_under hsees hans hwrite hask hlisten hmod h.1,
      of_under hsees hans hwrite hask hlisten hmod h.2⟩
  | .env _, _, h => fun _ _ v _ => of_under hsees hans hwrite hask hlisten hmod (h v).2
  | .get _, _, h => fun g' _ l hl hs =>
      of_under hsees hans hwrite hask hlisten hmod (h l (hsees g' l hl hs))
  | .modify f _, _, h => ⟨fun g' _ => (hmod f h.1).1 g', (hmod f h.1).2,
      of_under hsees hans hwrite hask hlisten hmod h.2⟩
  | .note _ n, _, h => of_under (c := n) hsees hans hwrite hask hlisten hmod h.2

/-- Code that only writes what a spec allows from now on keeps the spec, if the
spec asks for nothing else. -/
theorem Spec.Ok.of_writes {G : Type} {sp : Spec sys D G} {d : D} {t : sys.Tag} {W : S.Write → Prop}
    {g₀ : G} (hwrite : ∀ g, sp.rely d t g₀ g → ∀ w h, W w → sp.write g d t w h)
    (hask : ∀ g q h, sp.ask g d t q h) (hlisten : ∀ g q h, sp.listen g d t q h)
    (hloc : ∀ g l, sp.loc g d l) (hsees : ∀ l, sp.sees d t l) :
    ∀ {c : Code S} {g : G}, sp.rely d t g₀ g → c.Writes W → sp.Ok d t c g
  | .done, _, _, _ => trivial
  | .write .., _, hg, h => ⟨hwrite _ hg _ _ h.1,
      fun _ hr r => of_writes hwrite hask hlisten hloc hsees (sp.rely_trans _ _ _ _ _ hg hr) (h.2.1 r),
      fun _ hr _ => of_writes hwrite hask hlisten hloc hsees (sp.rely_trans _ _ _ _ _ hg hr) h.2.2⟩
  | .ask .., _, hg, h => ⟨hask _ _ _,
      fun _ hr a _ => of_writes hwrite hask hlisten hloc hsees (sp.rely_trans _ _ _ _ _ hg hr) (h.1 a),
      of_writes hwrite hask hlisten hloc hsees hg h.2⟩
  | .listen .., _, hg, h => ⟨hlisten _ _ _,
      fun _ hr a _ => of_writes hwrite hask hlisten hloc hsees (sp.rely_trans _ _ _ _ _ hg hr) (h.1 a),
      of_writes hwrite hask hlisten hloc hsees hg h.2⟩
  | .global .., _, hg, h => ⟨of_writes hwrite hask hlisten hloc hsees hg h.1,
      of_writes hwrite hask hlisten hloc hsees hg h.2⟩
  | .main .., _, hg, h => ⟨of_writes hwrite hask hlisten hloc hsees hg h.1,
      of_writes hwrite hask hlisten hloc hsees hg h.2⟩
  | .env _, _, hg, h => fun _ hr v _ =>
      of_writes hwrite hask hlisten hloc hsees (sp.rely_trans _ _ _ _ _ hg hr) (h v)
  | .get _, _, hg, h => fun _ hr l _ _ =>
      of_writes hwrite hask hlisten hloc hsees (sp.rely_trans _ _ _ _ _ hg hr) (h l)
  | .modify _ n, _, hg, h => ⟨fun _ _ _ _ => hloc _ _, fun _ _ => hsees _,
      of_writes (c := n) hwrite hask hlisten hloc hsees hg h⟩
  | .note _ n, _, hg, h => of_writes (c := n) hwrite hask hlisten hloc hsees hg h

/-- Whatever is outstanding on the device, or a listener, is bounded so, by
what `P` says of its tag. -/
structure Device.Under (L : S.Loc → Prop) (A : (q : S.Ask) → S.Ans q → Prop)
    (P : sys.Tag → Obs S → Prop) (dev : Device sys) : Prop where
  jobs : ∀ j ∈ dev.jobs, j.code.Under L A (P j.tag)
  writes : ∀ m ∈ dev.writes, ∀ r, P m.tag (.wrote m.write r) ∧ (m.handler r).Under L A (P m.tag)
  asks : ∀ m ∈ dev.asks, ∀ a, A m.q a → P m.tag (.answered m.q a) ∧ (m.handler a).Under L A (P m.tag)
  listeners : ∀ m ∈ dev.listeners, ∀ a, A m.q a →
    P m.tag (.answered m.q a) ∧ (m.handler a).Under L A (P m.tag)

section

variable {L : S.Loc → Prop} {A : (q : S.Ask) → S.Ans q → Prop} {P : sys.Tag → Obs S → Prop}
  {dev : Device sys}

theorem Device.Under.of_idle (h : dev.idle = true) (hl : dev.listeners = []) : dev.Under L A P := by
  obtain ⟨hjobs, hwrites, hasks⟩ := Device.idle_iff.mp h
  constructor <;> simp [hjobs, hwrites, hasks, hl]

theorem Device.Under.arrive {j : Job sys} (h : dev.Under L A P) (hj : j.code.Under L A (P j.tag)) :
    (dev.arrive j).Under L A P where
  jobs i hi := by
    rcases Device.mem_jobs_arrive.mp hi with rfl | hi
    · exact hj
    · exact h.jobs i hi
  writes := h.writes
  asks := h.asks
  listeners := h.listeners

theorem Device.Under.take {s : Slot} {j : Job sys} {dev' : Device sys} (h : dev.Under L A P)
    (htake : dev.take s = some (j, dev')) : j.code.Under L A (P j.tag) ∧ dev'.Under L A P := by
  have hp := Device.take_jobs htake
  refine ⟨h.jobs j (hp.symm.subset List.mem_cons_self),
    fun i hi => h.jobs i (hp.symm.subset (List.mem_cons_of_mem _ hi)), ?_, ?_, ?_⟩
  · rw [Device.take_writes htake]; exact h.writes
  · rw [Device.take_asks htake]; exact h.asks
  · rw [Device.take_listeners htake]; exact h.listeners

theorem Code.Under.exec {t : sys.Tag} {v : S.Env} {srv : sys.Srv} {c : Code S} {r : Turn sys}
    (hc : c.Under L A (P t)) (hdev : dev.Under L A P) (hl : L dev.loc)
    (h : Async.exec t v srv dev c = some r) :
    r.code.Under L A (P t) ∧ r.device.Under L A P ∧ ∀ o ∈ r.obs, P t o := by
  cases c with
  | done => cases h
  | write w hd n =>
      cases h
      refine ⟨hc.2.2, ⟨hdev.jobs, fun m hm => ?_, hdev.asks, hdev.listeners⟩, by simp [hc.1]⟩
      rcases List.mem_append.mp hm with hm | hm
      · exact hdev.writes m hm
      · rw [List.mem_singleton.mp hm]; exact hc.2.1
  | ask q hd n =>
      cases h
      refine ⟨hc.2, ⟨hdev.jobs, hdev.writes, fun m hm => ?_, hdev.listeners⟩, by simp⟩
      rcases List.mem_append.mp hm with hm | hm
      · exact hdev.asks m hm
      · rw [List.mem_singleton.mp hm]; exact hc.1
  | listen q hd n =>
      cases h
      refine ⟨hc.2, ⟨hdev.jobs, hdev.writes, hdev.asks, fun m hm => ?_⟩, by simp⟩
      rcases List.mem_append.mp hm with hm | hm
      · exact hdev.listeners m hm
      · rw [List.mem_singleton.mp hm]; exact hc.1
  | global b n =>
      cases h
      refine ⟨hc.2, ⟨fun j hj => ?_, hdev.writes, hdev.asks, hdev.listeners⟩, by simp⟩
      simp only [Device.jobs, ← List.append_assoc] at hj
      rcases List.mem_append.mp hj with hj | hj
      · exact hdev.jobs j hj
      · rw [List.mem_singleton.mp hj]; exact hc.1
  | main b n =>
      cases h
      exact ⟨hc.2, hdev.arrive (j := ⟨t, b⟩) hc.1, by simp⟩
  | env k =>
      obtain ⟨_, -, rfl⟩ := Option.map_eq_some_iff.mp h
      exact ⟨(hc v).2, hdev, by simp [(hc v).1]⟩
  | get k => cases h; exact ⟨hc _ hl, hdev, by simp⟩
  | modify f n =>
      cases h
      exact ⟨hc.2, ⟨hdev.jobs, hdev.writes, hdev.asks, hdev.listeners⟩, by simp [hc.1]⟩
  | note x n => cases h; exact ⟨hc.2, hdev, by simp [hc.1]⟩

end

/-! ## Worlds -/

section

variable [DecidableEq D]

/-- Every memory is as `L` has it, and whatever is outstanding anywhere is
bounded so. -/
def World.Under (L : S.Loc → Prop) (A : (q : S.Ask) → S.Ans q → Prop)
    (P : sys.Tag → Obs S → Prop) (w : World sys D) : Prop :=
  ∀ d, L (w.devices d).loc ∧ (w.devices d).Under L A P

variable {L : S.Loc → Prop} {A : (q : S.Ask) → S.Ans q → Prop} {P : sys.Tag → Obs S → Prop}
  {w w' : World sys D} {e : Event sys D}

/-- What a step does to the memory of a device. -/
inductive LocStep (P : sys.Tag → Obs S → Prop) (w w' : World sys D) (e : Event sys D) (d : D) :
    Prop
  | same (h : (w'.devices d).loc = (w.devices d).loc)
  | changed {s v t f n dev} (he : e = .run d s v)
      (htake : (w.devices d).take s = some (⟨t, .modify f n⟩, dev)) (hf : P t (.changed f))
      (h : (w'.devices d).loc = f (w.devices d).loc)

omit [DecidableEq D] in
theorem LocStep.keeps {d : D} (h : LocStep P w w' e d)
    (hL : ∀ t f, P t (.changed f) → ∀ l, L l → L (f l)) (hl : L (w.devices d).loc) :
    L (w'.devices d).loc := by
  cases h with
  | same h => rw [h]; exact hl
  | changed _ _ hf h => rw [h]; exact hL _ _ hf _ hl

/-- One step, as one device has it: what is outstanding there stays bounded,
what is logged there meets `P`, and the memory is changed by what meets
`P`. -/
theorem Device.Under.step {d : D} (hL : ∀ t f, P t (.changed f) → ∀ l, L l → L (f l))
    (h : (w.devices d).Under L A P) (hl : L (w.devices d).loc) (hs : Stepped w e w')
    (hact : ∀ a, e = .act d a → ((sys.ui a (w.devices d).loc).2.start (w.devices d).loc).Under L A
      (P (sys.ui a (w.devices d).loc).1))
    (hans : ∀ t q a srv, e.Answers w d t q a srv → A q a) :
    (w'.devices d).Under L A P ∧ (∀ x ∈ w'.log, x.device = d →
      x ∈ w.log ∨ (∃ a, e = .act d a ∧ x.obs = .acted) ∨ P x.tag x.obs) ∧
      LocStep P w w' e d := by
  -- a step touches one device
  have key : ∀ {d' : D} {srv : sys.Srv} {dev : Device sys} {t : sys.Tag} {obs : List (Obs S)},
      w' = w.put d' srv dev t obs →
      (d' = d → dev.Under L A P ∧ (∀ o ∈ obs, (∃ a, e = .act d a ∧ o = .acted) ∨ P t o) ∧
        (dev.loc = (w.devices d).loc ∨ LocStep P w w' e d)) →
      (w'.devices d).Under L A P ∧ (∀ x ∈ w'.log, x.device = d →
        x ∈ w.log ∨ (∃ a, e = .act d a ∧ x.obs = .acted) ∨ P x.tag x.obs) ∧
        LocStep P w w' e d := by
    intro d' srv dev t obs hw hown
    have hlog : ∀ x ∈ w'.log, x ∈ w.log ∨ ∃ o ∈ obs, x = ⟨d', t, o⟩ := fun x hx => by
      rw [hw] at hx
      rcases List.mem_append.mp hx with hx | hx
      · obtain ⟨o, ho, rfl⟩ := List.mem_map.mp hx
        exact Or.inr ⟨o, ho, rfl⟩
      · exact Or.inl hx
    by_cases hd : d' = d
    · subst hd
      obtain ⟨hdev, hobs, hloc⟩ := hown rfl
      have hput : w'.devices d' = dev := by rw [hw, World.put_device]
      refine ⟨hput ▸ hdev, fun x hx _ => ?_, hloc.elim (fun h => .same (hput ▸ h)) id⟩
      rcases hlog x hx with hx | ⟨o, ho, rfl⟩
      · exact Or.inl hx
      · exact Or.inr (hobs o ho)
    · have hput : w'.devices d = w.devices d := by rw [hw, World.put_device_ne w (Ne.symm hd)]
      refine ⟨hput ▸ h, fun x hx hxd => ?_, .same (by rw [hput])⟩
      rcases hlog x hx with hx | ⟨o, ho, rfl⟩
      · exact Or.inl hx
      · exact absurd hxd hd
  cases hs with
  | @act d a hmain =>
      refine key rfl fun hd => ?_
      subst hd
      refine ⟨⟨fun j hj => ?_, h.writes, h.asks, h.listeners⟩, by simp, Or.inl rfl⟩
      rw [Device.begin_jobs hmain] at hj
      rcases List.mem_cons.mp hj with rfl | hj
      · exact hact a rfl
      · exact h.jobs j hj
  | @next d j js hmain hin =>
      refine key rfl fun hd => ?_
      subst hd
      have hjobs := Device.next_jobs hmain hin
      refine ⟨⟨fun i hi => ?_, h.writes, h.asks, h.listeners⟩, by simp, Or.inl rfl⟩
      rw [Device.begin_jobs (by exact hmain)] at hi
      rcases List.mem_cons.mp hi with rfl | hi
      · exact (h.jobs j (by rw [hjobs]; exact List.mem_cons_self)).start (hL j.tag) hl
      · exact h.jobs i (by rw [hjobs]; exact List.mem_cons_of_mem _ hi)
  | @finish d s v t dev htake =>
      refine key rfl fun hd => ?_
      subst hd
      exact ⟨(h.take htake).2, by simp, Or.inl (Device.take_loc htake)⟩
  | @run d s v t c dev r htake hexec =>
      refine key rfl fun hd => ?_
      subst hd
      obtain ⟨hc, hdev⟩ := h.take htake
      have hloc : dev.loc = (w.devices d).loc := Device.take_loc htake
      obtain ⟨hc', hdev', hobs⟩ := hc.exec hdev (by rw [hloc]; exact hl) hexec
      have hfree : s = .main → r.device.main = none := fun h => by
        rw [exec_main hexec]; exact Device.take_free htake h
      refine ⟨⟨fun j hj => ?_, ?_, ?_, ?_⟩, fun o ho => Or.inr (hobs o ho), ?_⟩
      · rcases List.mem_cons.mp ((Device.back_jobs hfree).subset hj) with rfl | hj
        · exact hc'
        · exact hdev'.jobs j hj
      · rw [Device.back_writes]; exact hdev'.writes
      · rw [Device.back_asks]; exact hdev'.asks
      · rw [Device.back_listeners]; exact hdev'.listeners
      · cases c with
        | done => cases hexec
        | env k =>
            obtain ⟨_, -, rfl⟩ := Option.map_eq_some_iff.mp hexec
            exact Or.inl (by rw [Device.back_loc]; exact hloc)
        | modify f n =>
            cases hexec
            refine Or.inr (.changed rfl htake hc.1 ?_)
            rw [World.put_device, Device.back_loc, ← hloc]
        | _ => cases hexec; exact Or.inl (by rw [Device.back_loc]; exact hloc)
  | @commit d fail m ms hw =>
      refine key rfl fun hd => ?_
      subst hd
      have hm := h.writes m (by rw [hw]; exact List.mem_cons_self)
      refine ⟨Device.Under.arrive ⟨h.jobs, fun n hn => ?_, h.asks, h.listeners⟩ (hm _).2,
        by simp [(hm _).1], Or.inl rfl⟩
      exact h.writes n (by rw [hw]; exact List.mem_cons_of_mem _ hn)
  | @answer d i c m a srv hi hv =>
      refine key rfl fun hd => ?_
      subst hd
      have hm := h.asks m (List.mem_of_getElem? hi) a (hans _ _ _ _ (.answer hi hv))
      refine ⟨Device.Under.arrive ⟨h.jobs, h.writes, fun n hn => ?_, h.listeners⟩ hm.2,
        by simp [hm.1], Or.inl rfl⟩
      exact h.asks n (List.mem_of_mem_eraseIdx hn)
  | @notify d i c m a srv hi hv =>
      refine key rfl fun hd => ?_
      subst hd
      have hm := h.listeners m (List.mem_of_getElem? hi) a (hans _ _ _ _ (.notify hi hv))
      exact ⟨h.arrive hm.2, by simp [hm.1], Or.inl rfl⟩

/-- One step: what is outstanding stays bounded, what is logged meets `P`,
and the memory is changed by what meets `P`. -/
theorem World.Under.step (hL : ∀ t f, P t (.changed f) → ∀ l, L l → L (f l))
    (h : w.Under L A P) (hs : Stepped w e w')
    (hact : ∀ d a, e = .act d a → L (w.devices d).loc →
      ((sys.ui a (w.devices d).loc).2.start (w.devices d).loc).Under L A
        (P (sys.ui a (w.devices d).loc).1))
    (hans : ∀ d t q a srv, e.Answers w d t q a srv → A q a) :
    w'.Under L A P ∧ (∀ x ∈ w'.log, x ∈ w.log ∨ (∃ d a, e = .act d a ∧ x.obs = .acted) ∨
      P x.tag x.obs) ∧ ∀ d, LocStep P w w' e d := by
  have one := fun d => (h d).2.step hL (h d).1 hs (fun a he => hact d a he (h d).1) (hans d)
  refine ⟨fun d => ⟨(one d).2.2.keeps hL (h d).1, (one d).1⟩, fun x hx => ?_,
    fun d => (one d).2.2⟩
  rcases (one x.device).2.1 x hx rfl with hx | ⟨a, he, ho⟩ | hp
  · exact Or.inl hx
  · exact Or.inr (Or.inl ⟨x.device, a, he, ho⟩)
  · exact Or.inr (Or.inr hp)

/-- A run whose actions start with code so bounded logs only what meets `P`. -/
theorem World.Under.of_run (hL : ∀ t f, P t (.changed f) → ∀ l, L l → L (f l))
    {ok : World sys D → Event sys D → Prop} {w₀ : World sys D} (h₀ : w₀.Under L A P)
    (hact : ∀ w d a, ok w (.act d a) → L (w.devices d).loc →
      ((sys.ui a (w.devices d).loc).2.start (w.devices d).loc).Under L A
        (P (sys.ui a (w.devices d).loc).1))
    (hans : ∀ w e d t q a srv, ok w e → e.Answers w d t q a srv → A q a)
    (hrun : Run ok w₀ w) : w.Under L A P := by
  refine hrun.inv (World.Under L A P) h₀ fun w e w' hw hok hs => ?_
  exact (hw.step hL hs (fun d a he => hact w d a (he ▸ hok))
    fun d t q a srv hans' => hans w e d t q a srv hok hans').1

/-- A write that is answered is as `W` has it. -/
def Carries (W : sys.Tag → S.Write → Prop) (t : sys.Tag) : Obs S → Prop
  | .wrote wr _ => W t wr
  | _ => True

/-- Every write that was sent is one its call may issue. -/
theorem sent_of_run {W : sys.Tag → S.Write → Prop} {ok : World sys D → Event sys D → Prop}
    {w₀ : World sys D} (h₀ : ∀ d, (w₀.devices d).idle = true ∧ (w₀.devices d).listeners = [])
    (hact : ∀ a l, ((sys.ui a l).2.start l).Writes (W (sys.ui a l).1)) (hrun : Run ok w₀ w)
    {d : D} {m : Sent sys} (hm : m ∈ (w.devices d).writes) : W m.tag m.write := by
  have hunder : w.Under (fun _ => True) (fun _ _ => True) (Carries W) := by
    refine World.Under.of_run (fun _ _ _ _ _ => trivial)
      (fun d => ⟨trivial, .of_idle (h₀ d).1 (h₀ d).2⟩) (fun w d a _ _ => ?_)
      (fun _ _ _ _ _ _ _ _ _ => trivial) hrun
    exact (hact a _).under (fun _ hw => ⟨trivial, fun _ => hw⟩) (fun _ _ => trivial)
      (fun _ => trivial) (fun _ => trivial) fun _ => trivial
  exact ((hunder d).2.writes m hm none).1

end

end Async
