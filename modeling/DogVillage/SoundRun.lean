import DogVillage.SoundScreens

/-!
# Every world reached is sound

From the empty world, whatever happens and whatever fails: the documents,
the memories and everything outstanding stay sound, every account on the
server is registered, and a post's id has one owner.
-/

namespace DogVillage

open Async

variable {D : Type} {strict : Prop} {w w' : World village D} {e : Event village D}

/-- The registration that made the account. -/
def Created (log : Log D) (a : Account) : Prop :=
  ∃ x ∈ log, x.obs = .answered (.createUser a.email a.password) (.ok a.uid)

theorem Created.mono {log log' : Log D} (h : log <:+ log') {a : Account} (ha : Created log a) :
    Created log' a := by
  obtain ⟨x, hx, ha⟩ := ha
  exact ⟨x, h.subset hx, ha⟩

theorem Created.member {log : Log D} {a : Account} (h : Created log a) : Member log a.uid := by
  obtain ⟨x, hx, ho⟩ := h
  exact ⟨x, hx, _, _, ho⟩

structure Sound (strict : Prop) (w : World village D) : Prop where
  code : (sound strict).Inv w
  docs : ∀ r data, w.server.docs.get r = some data → FetchedOk w.log r data
  accounts : ∀ a ∈ w.server.accounts, Created w.log a
  wrote : ∀ x ∈ w.log, ∀ wr r, x.obs = .wrote wr r → WriteOk strict w.log x.tag wr
  used : ∀ x ∈ w.log, ∀ v, x.obs = .supplied v → v.uuid ∈ w.server.used
  /-- No name is handed out twice. -/
  once : ∀ x ∈ w.log, ∀ y ∈ w.log, ∀ v v', x.obs = .supplied v → y.obs = .supplied v' →
    v.uuid = v'.uuid → x.tag = y.tag

theorem sound_emptyWorld : Sound strict (emptyWorld : World village D) where
  code :=
    { loc := fun _ => by constructor <;> simp [emptyWorld]
      held := fun _ => by constructor <;> simp [emptyWorld, Device.jobs] }
  docs r data h := by simp [emptyWorld] at h
  accounts a h := by cases h
  wrote x h := by cases h
  used x h := by cases h
  once x h := by cases h

/-- A post has one owner. -/
theorem Sound.owner_unique (h : Sound strict w) {p : DocId} {u u' : Uid}
    (hu : Owner w.log p u) (hu' : Owner w.log p u') : u = u' := by
  obtain ⟨x, hx, v, hv, rfl, hxu⟩ := hu
  obtain ⟨y, hy, v', hv', hp, hyu⟩ := hu'
  have ht := h.once x hx y hy v v' hv hv' hp.symm
  rw [ht, hyu] at hxu
  exact (Option.some.inj hxu).symm

/-- Every copy of a post names the owner its document names. -/
theorem Sound.ownerUid {strict : Prop} (h : Sound strict w) {post : Post} {data : Dictionary}
    (hpost : PostOk w.log post) (hget : w.server.docs.get ⟨.posts, post.postId⟩ = some data) :
    data.string "ownerUid" = post.ownerUid := by
  obtain ⟨⟨⟨u, ⟨hl, -⟩, ho⟩, -⟩, -⟩ := h.docs _ _ hget
  rw [string_of_lookup hl]
  exact h.owner_unique ho hpost.owner

variable [DecidableEq D]

/-! ## One step -/

theorem Sound.docs_step (h : Sound strict w) (hs : Stepped w e w') :
    ∀ r data, w'.server.docs.get r = some data → FetchedOk w'.log r data := by
  intro r data hget
  have hgrow := hs.log
  cases docsStep hs with
  | same hdocs _ => exact (h.docs r data (hdocs ▸ hget)).mono hgrow
  | @wrote d m ms he hw hlog hget' =>
      have hm := (h.code.held d).writes m (by rw [hw]; exact List.mem_cons_self)
      rw [hget'] at hget
      split at hget
      · next hr =>
          subst hr
          refine ⟨(DocOk.written (fun old ho => (h.docs _ old ho).1) hm.1 hget).mono hgrow, ?_⟩
          intro hposts
          cases hwr : m.write with
          | setData r data =>
              rw [hwr] at hlog hposts
              refine ⟨⟨d, m.tag, .wrote (.setData r data) none⟩,
                hlog ▸ List.mem_cons_self, data, ?_⟩
              obtain ⟨_, _⟩ := r
              cases hposts
              rfl
          | updateData r data =>
              rw [hwr] at hget hposts
              obtain ⟨old, ho, -⟩ := Option.map_eq_some_iff.mp hget
              exact ((h.docs _ old ho).2 hposts).mono hgrow
          | delete r => rw [hwr] at hget; cases hget
      · exact (h.docs r data hget).mono hgrow

theorem Sound.answer_step (h : Sound strict w) (hs : Stepped w e w') {d : D} {t : Call}
    {q : Ask} {a : q.Ans} {srv : Server} (hans : e.Answers w d t q a srv) :
    AnswerOk w'.log q a := by
  have hgrow := hs.log
  obtain ⟨hlog, -⟩ := hans.step hs
  obtain ⟨c, hv⟩ := hans.serve
  have hv : Server.serve q c w.server = some (a, srv) := hv
  cases q with
  | getDocument r =>
      intro data ha
      cases c <;> cases hv
      · exact (h.docs r data (Option.some.inj ha)).mono hgrow
      · cases ha
  | getDocuments q =>
      intro docs ha x hx
      cases c <;> cases hv
      · cases ha
        obtain ⟨hget, hsel⟩ := Documents.mem_select.mp hx
        exact ⟨(h.docs _ _ hget).mono hgrow, hsel⟩
      · cases ha
  | createUser email password =>
      rintro u rfl
      exact ⟨_, hlog ▸ List.mem_cons_self, email, password, rfl⟩
  | signIn email password =>
      intro u ha
      cases c <;> simp only [Server.serve] at hv <;> try cases hv
      · split at hv
        · next acc hacc =>
            cases hv
            cases ha
            exact (h.accounts acc (List.mem_of_find?_eq_some hacc)).member.mono hgrow
        · cases hv; cases ha
      · cases ha
  | _ => trivial

theorem Sound.accounts_step (h : Sound strict w) (hs : Stepped w e w') :
    ∀ a ∈ w'.server.accounts, Created w'.log a := by
  intro a ha
  have hgrow := hs.log
  cases accountsStep hs with
  | same hacc _ => exact (h.accounts a (hacc ▸ ha)).mono hgrow
  | created hlog hnew hused hacc =>
      rw [hacc] at ha
      rcases List.mem_cons.mp ha with rfl | ha
      · exact ⟨_, hlog ▸ List.mem_cons_self, rfl⟩
      · exact (h.accounts a ha).mono hgrow
  | deleted hlog hex hacc =>
      rw [hacc] at ha
      exact (h.accounts a (List.mem_of_mem_filter ha)).mono hgrow

/-- A step logs no name, or hands out a new one. -/
theorem supplied_step (hs : Stepped w e w') :
    (∃ l, w'.log = l ++ w.log ∧ ∀ x ∈ l, ∀ v, x.obs ≠ .supplied v) ∨
      ∃ d t v, w'.log = ⟨d, t, .supplied v⟩ :: w.log ∧
        Server.supply v w.server = some w'.server := by
  have other : ∀ {d : D} {srv : Server} {dev : Device village} {t : Call} {obs : List (Obs sig)},
      w' = w.put d srv dev t obs → (∀ o ∈ obs, ∀ v, o ≠ .supplied v) →
      ∃ l, w'.log = l ++ w.log ∧ ∀ x ∈ l, ∀ v, x.obs ≠ .supplied v := by
    rintro d srv dev t obs rfl ho
    refine ⟨_, rfl, fun x hx v => ?_⟩
    obtain ⟨o, hmem, rfl⟩ := List.mem_map.mp hx
    exact ho o hmem v
  cases hs with
  | @run d s v t c dev r htake hexec =>
      cases c with
      | done => cases hexec
      | env k =>
          obtain ⟨srv', hs, rfl⟩ := Option.map_eq_some_iff.mp hexec
          exact Or.inr ⟨d, t, v, rfl, hs⟩
      | _ => cases hexec; exact Or.inl (other rfl (by simp))
  | _ => exact Or.inl (other rfl (by simp))

theorem Sound.step (h : Sound strict w) (hs : Stepped w e w')
    (hown : strict → ∀ d a, e = .act d a → OwnRemoval (w.devices d).loc a) :
    Sound strict w' where
  code := by
    have hgrow := hs.log
    refine h.code.step hs (fun _ _ _ => hgrow) (fun _ _ ha => ha.mono hgrow) ?_
      (fun _ _ _ => trivial) ?_ ?_ fun _ _ _ _ _ hans => h.answer_step hs hans
    · intro d a he
      have hlog : w'.log =
          ⟨d, ⟨(w.devices d).loc.currentUser, a.op (w.devices d).loc⟩, .acted⟩ :: w.log := by
        subst he
        cases hs
        rfl
      have hact : SoundCode strict d _ _ _ := sound_action a (h.code.loc d) fun hst =>
        hown hst d a he
      show SoundCode strict d _ _ w'.log
      rw [hlog]
      exact hact
    · exact fun d t v hv u hu =>
        ⟨_, (hv.step hs).1 ▸ List.mem_cons_self, v, rfl, rfl, hu⟩
    · rintro d t wr hiss p data rfl
      exact ⟨_, hiss.log hs ▸ List.mem_cons_self, data, Or.inl rfl⟩
  docs := h.docs_step hs
  accounts := h.accounts_step hs
  wrote x hx wr r hwr := by
    rcases wrote_of_step hs hx hwr with hx | ⟨fail, m, ms, -, hw, ht, rfl, -⟩
    · exact (h.wrote x hx wr r hwr).mono hs.log
    · have hm := (h.code.held x.device).writes m (by rw [hw]; exact List.mem_cons_self)
      exact ht ▸ WriteOk.mono hs.log hm.1
  used x hx v hv := by
    rcases supplied_step hs with ⟨l, hlog, hold⟩ | ⟨d, t, v', hlog, hsup⟩
    · rw [hlog] at hx
      rcases List.mem_append.mp hx with hx | hx
      · exact absurd hv (hold x hx v)
      · exact used_step hs (h.used x hx v hv)
    · rw [hlog] at hx
      rcases List.mem_cons.mp hx with rfl | hx
      · cases hv
        unfold Server.supply at hsup
        split at hsup
        · cases hsup
        · rw [← Option.some.inj hsup]; exact List.mem_cons_self
      · exact used_step hs (h.used x hx v hv)
  once x hx y hy v v' hv hv' huuid := by
    rcases supplied_step hs with ⟨l, hlog, hold⟩ | ⟨d, t, v₀, hlog, hsup⟩
    · rw [hlog] at hx hy
      rcases List.mem_append.mp hx with hx | hx
      · exact absurd hv (hold x hx v)
      rcases List.mem_append.mp hy with hy | hy
      · exact absurd hv' (hold y hy v')
      exact h.once x hx y hy v v' hv hv' huuid
    · have hnew : v₀.uuid ∉ w.server.used := by
        unfold Server.supply at hsup
        split at hsup
        · cases hsup
        · assumption
      rw [hlog, List.mem_cons] at hx hy
      rcases hx with rfl | hx <;> rcases hy with rfl | hy
      · rfl
      · cases hv; exact absurd (h.used y hy v' hv') (huuid ▸ hnew)
      · cases hv'; exact absurd (h.used x hx v hv) (huuid.symm ▸ hnew)
      · exact h.once x hx y hy v v' hv hv' huuid

/-! ## Runs -/

/-- Entries that take up the name `x`, each while it is new, number at most
one. -/
theorem once_of_run {ok : World village D → Event village D → Prop} {kind : Entry village D → Bool}
    {x : String}
    (hkind : ∀ w e w', Stepped w e w' → w'.log.countP kind = w.log.countP kind ∨
      w'.log.countP kind = w.log.countP kind + 1 ∧ x ∉ w.server.used ∧ x ∈ w'.server.used)
    (hrun : Run ok emptyWorld w) :
    w.log.countP kind ≤ 1 ∧ (w.log.countP kind ≠ 0 → x ∈ w.server.used) := by
  induction hrun with
  | refl => exact ⟨Nat.zero_le _, fun h => absurd rfl h⟩
  | @step w w' e _ _ hstep ih =>
      have hs := stepped_of_step hstep
      rcases hkind w e w' hs with heq | ⟨heq, hnew, hused⟩
      · rw [heq]
        exact ⟨ih.1, fun hne => used_step hs (ih.2 hne)⟩
      · have hz : w.log.countP kind = 0 := by
          by_contra hne
          exact hnew (ih.2 hne)
        rw [heq, hz]
        exact ⟨le_refl _, fun _ => hused⟩

theorem Sound.of_run {ok : World village D → Event village D → Prop}
    (hok : strict → ∀ w d a, ok w (.act d a) → OwnRemoval (w.devices d).loc a)
    (hrun : Run ok emptyWorld w) : Sound strict w :=
  hrun.inv (Sound strict) sound_emptyWorld fun w _ _ h hoke hs =>
    h.step hs fun hst d a he => hok hst w d a (he ▸ hoke)

/-- Every world reached is sound, whoever removes which post. -/
theorem sound_of_run {ok : World village D → Event village D → Prop}
    (hrun : Run ok emptyWorld w) : Sound False w := Sound.of_run (fun hf => hf.elim) hrun

end DogVillage
