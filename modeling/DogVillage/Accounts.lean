import DogVillage.AccountCalls
import DogVillage.References

/-!
# Accounts and their documents

Auth keeps an account and Firestore the document `users/uid`, and nothing
keeps the two together but `registerUser` and `deletaUser`. They do, as
long as the document of a new account is not refused and the two calls of
a deletion fail or succeed together.
-/

namespace DogVillage

open Async

section

variable {D : Type}

/-- A call `registerUser` or `deletaUser` is made of. -/
def accountCall : Obs sig → Bool
  | .wrote (.setData ⟨.users, _⟩ _) _ => true
  | .wrote (.delete ⟨.users, _⟩) _ => true
  | .answered (.createUser _ _) _ => true
  | .answered (.deleteAccount _) _ => true
  | _ => false

/-- Nothing outstanding may come to such a call. -/
def AccountsQuiet (w : World village D) : Prop :=
  ∀ d, (w.devices d).Leads fun o => accountCall o = false

structure AccountsPaired (w : World village D) : Prop where
  /-- An account has its document, and a document its account. -/
  documented : ∀ u, (∃ a ∈ w.server.accounts, a.uid = u) ↔
    w.server.present ⟨.users, u⟩ = true
  /-- An e-mail is taken only by a registration that succeeded in full. -/
  registered : ∀ a ∈ w.server.accounts, Created w.log a ∧ Existed w ⟨.users, a.uid⟩

/-- The document of `u` was deleted. -/
def Erased (w : World village D) (u : Uid) : Prop :=
  ∃ x ∈ w.log, x.obs = .wrote (.delete ⟨.users, u⟩) none

/-- The account `u` was deleted. -/
def Gone (w : World village D) (u : Uid) : Prop :=
  ∃ x ∈ w.log, x.obs = .answered (.deleteAccount u) none

variable [DecidableEq D]

/-- No document of a new account is refused, and none is deleted before it
was written; the `n`-th deletion of an account on a device deletes both the
account and the document or neither, as `fate` has it; its background block
finds the account that started it still signed in, or gone and nobody
signed in. -/
structure Paired (fate : D → Uid → Nat → Bool) (w : World village D) (e : Event village D) :
    Prop where
  written : ∀ d fail m ms u data, e = .commit d fail → (w.devices d).writes = m :: ms →
    m.write = .setData ⟨.users, u⟩ data → fail = none
  user : ∀ d fail m ms u, e = .commit d fail → (w.devices d).writes = m :: ms →
    m.write = .delete ⟨.users, u⟩ →
    (fail = none ↔ fate d u (Tally.count d (deletedUser u) w.log) = true) ∧
      (fail = none → Existed w ⟨.users, u⟩)
  account : ∀ d i c m u v, e = .answer d i c → (w.devices d).asks[i]? = some m →
    m.q = .deleteAccount v → m.tag = deletion u →
    (c = Server.Choice.ok ↔ fate d u (Tally.count d (deletedAccount u) w.log) = true)
  found : ∀ d j, e.Takes w d j → j.tag.op = .delete → j.code.Reads →
    (w.devices d).loc.currentUser = j.tag.actor ∨
      (w.devices d).loc.currentUser = none ∧
        ∀ a ∈ w.server.accounts, some a.uid ≠ j.tag.actor

end

variable {D : Type} [DecidableEq D] {fate : D → Uid → Nat → Bool} {w w' : World village D}
  {e : Event village D} {u : Uid}

omit [DecidableEq D] in
theorem Existed.mono {r : Ref Collection} (h : Existed w r) (hlog : w.log <:+ w'.log) :
    Existed w' r := by
  obtain ⟨x, hx, ho⟩ := h
  exact ⟨x, hlog.subset hx, ho⟩

omit [DecidableEq D] in
theorem Gone.mono (h : Gone w u) (hlog : w.log <:+ w'.log) : Gone w' u := by
  obtain ⟨x, hx, ho⟩ := h
  exact ⟨x, hlog.subset hx, ho⟩

/-! ## The calls of one kind -/

/-- A document that was deleted had been written. -/
theorem existed_of_erased (hrun : Run (Paired fate) emptyWorld w) :
    ∀ u, Erased w u → Existed w ⟨.users, u⟩ := by
  induction hrun with
  | refl => exact fun u ⟨x, hx, _⟩ => by cases hx
  | @step w w' e _ hok hstep ih =>
      rintro u ⟨x, hx, ho⟩
      have hs := stepped_of_step hstep
      rcases wrote_of_step hs hx ho with hx | ⟨fail, m, ms, he, hw, -, hm, hr⟩
      · exact (ih u ⟨x, hx, ho⟩).mono hs.log
      · obtain ⟨rfl, -⟩ := docs_accepted hr
        exact ((hok.user x.device none m ms u he hw hm).2 rfl).mono hs.log

/-- A document of a new account is not refused. -/
theorem written_accepted (hrun : Run (Paired fate) emptyWorld w) :
    ∀ x ∈ w.log, ∀ u data r, x.obs = .wrote (.setData ⟨.users, u⟩ data) r → r = none := by
  induction hrun with
  | refl => exact fun x hx => by cases hx
  | @step w w' e _ hok hstep ih =>
      intro x hx u data r ho
      rcases wrote_of_step (stepped_of_step hstep) hx ho with hx | ⟨fail, m, ms, rfl, hw, -, hm, rfl⟩
      · exact ih x hx u data r ho
      · rw [hok.written x.device fail m ms u data rfl hw hm]
        rfl

omit [DecidableEq D] in
theorem existed_member (h : Sound False w) (hex : Existed w ⟨.users, u⟩) : Member w.log u := by
  obtain ⟨x, hx, data, ho⟩ := hex
  exact ((h.wrote x hx _ _ ho).1).2

/-- A uid is handed out with the account, and once. -/
theorem registered_once {ok : World village D → Event village D → Prop}
    (hrun : Run ok emptyWorld w) (u : Uid) :
    (w.log.countP fun x => registered u x.tag x.obs) ≤ 1 := by
  refine (once_of_run (x := u) (fun w e w' hs => ?_) hrun).1
  cases hs.logs with
  | acted _ hlog => exact Or.inl (by rw [hlog, List.countP_cons_of_neg (by simp [registered])])
  | wrote _ _ hlog => exact Or.inl (by rw [hlog, List.countP_cons_of_neg (by simp [registered])])
  | own hlog hl =>
      refine Or.inl ?_
      rw [hlog, List.countP_append, List.countP_eq_zero.mpr, Nat.zero_add]
      exact fun x hx => Bool.not_eq_true _ ▸ registered_own (hl x hx)
  | @answered d t q a hans hlog =>
      by_cases hr : registered u t (.answered q a) = true
      · refine Or.inr ⟨by rw [hlog, List.countP_cons_of_pos (by exact hr)], ?_⟩
        have hserved := answers_served hans
        generalize w'.server = srv at hserved ⊢
        cases hserved with
        | same _ ho =>
            unfold registered at hr
            split at hr
            · next ho' => cases ho'; cases ho
            · cases hr
        | created hnew hused _ =>
            simp only [registered, Bool.decide_and, Bool.and_eq_true, decide_eq_true_eq] at hr
            rw [hused, ← hr.2]
            exact ⟨hnew, List.mem_cons_self⟩
        | deleted _ _ => cases hr
      · exact Or.inl (by rw [hlog, List.countP_cons_of_neg (by exact hr)])

theorem registrations_tallied {ok : World village D → Event village D → Prop}
    (hrun : Run ok emptyWorld w) (u : Uid) (s : ℤ) (d : D) : (registrations u s).Tallied d w :=
  Tally.Tallied.of_run registrations_action (fun _ _ => trivial)
    (Tally.tallied_of_idle rfl rfl rfl) hrun

theorem registrations_generous (u : Uid) : (registrations u 1).Generous where
  issued _ _ := le_refl _
  wrote t wr := ⟨none, by
    cases h : wroteUser u t (.wrote wr none) <;> simp [registrations, Tally.balance, h, registered]⟩
  answered t q := by
    cases q with
    | createUser email password => exact ⟨.error .notFound, le_refl _⟩
    | signIn email password => exact ⟨.error .notFound, le_refl _⟩
    | _ => exact ⟨none, le_refl _⟩
  supplied _ := ⟨⟨"", ⟨0, 0⟩⟩, le_refl _⟩
  changed _ _ := le_refl _
  noted _ _ := le_refl _
  sees _ := ⟨{}, trivial⟩

/-- The document of a new account is written for the first time. -/
theorem not_existed_of_sent {ok : World village D → Event village D → Prop}
    (hrun : Run ok emptyWorld w) {d : D} {m : Sent village}
    (hm : m ∈ (w.devices d).writes) {data : Dictionary}
    (hwr : m.write = .setData ⟨.users, u⟩ data) : ¬ Existed w ⟨.users, u⟩ := by
  rintro ⟨x, hx, data', ho⟩
  have hsound := sound_of_run hrun
  have hop : m.tag.op = .register := by
    have hok : WriteOk False w.log m.tag m.write := ((hsound.code.held d).writes m hm).1
    rw [hwr] at hok
    exact hok.2
  have hfirst := Tally.first_of_sent (registrations_generous u)
    (registrations_tallied hrun u 1) (registered_once hrun u) hm (r := none)
    (by simp [wroteUser, hwr, hop]) rfl x hx
  simp [wroteUser, ho, (hsound.wrote x hx _ _ ho).2] at hfirst

/-! ## The documents and the accounts, by the log -/

/-- A document of `users` is there if it was written and not deleted since. -/
theorem present_iff (hrun : Run (Paired fate) emptyWorld w) (u : Uid) :
    w.server.present ⟨.users, u⟩ = true ↔ Existed w ⟨.users, u⟩ ∧ ¬ Erased w u := by
  induction hrun with
  | refl =>
      constructor
      · exact fun h => by cases h
      · rintro ⟨⟨x, hx, -⟩, -⟩
        cases hx
  | @step w w' e hrun hok hstep ih =>
      have hs := stepped_of_step hstep
      cases presentStep hs ⟨.users, u⟩ with
      | same hp hlog =>
          have hex : Existed w' ⟨.users, u⟩ ↔ Existed w ⟨.users, u⟩ :=
            ⟨fun ⟨x, hx, data, ho⟩ => ⟨x, hlog x hx _ true ho rfl, data, ho⟩, fun h => h.mono hs.log⟩
          have her : Erased w' u ↔ Erased w u :=
            ⟨fun ⟨x, hx, ho⟩ => ⟨x, hlog x hx _ false ho rfl, ho⟩,
              fun ⟨x, hx, ho⟩ => ⟨x, hs.log.subset hx, ho⟩⟩
          rw [hp, hex, her, ih]
      | @put d b m ms he hw hputs hlog hp =>
          have hmem : m ∈ (w.devices d).writes := by rw [hw]; exact List.mem_cons_self
          rw [hp]
          cases hwr : m.write with
          | setData r data =>
              rw [hwr] at hputs hlog
              cases hputs
              refine iff_of_true rfl ⟨⟨_, hlog ▸ List.mem_cons_self, data, rfl⟩, ?_⟩
              rintro ⟨x, hx, ho⟩
              rw [hlog] at hx
              rcases List.mem_cons.mp hx with rfl | hx
              · cases ho
              · exact not_existed_of_sent hrun hmem hwr (existed_of_erased hrun u ⟨x, hx, ho⟩)
          | updateData r data => rw [hwr] at hputs; cases hputs
          | delete r =>
              rw [hwr] at hputs hlog
              cases hputs
              exact iff_of_false Bool.false_ne_true fun h =>
                h.2 ⟨_, hlog ▸ List.mem_cons_self, rfl⟩

theorem used_of_member {ok : World village D → Event village D → Prop}
    (hrun : Run ok emptyWorld w) : ∀ u, Member w.log u → u ∈ w.server.used := by
  induction hrun with
  | refl => exact fun u ⟨x, hx, _⟩ => by cases hx
  | @step w w' e _ _ hstep ih =>
      rintro u ⟨x, hx, email, password, ho⟩
      have hs := stepped_of_step hstep
      have old : x ∈ w.log → u ∈ w'.server.used := fun hx =>
        used_step hs (ih u ⟨x, hx, email, password, ho⟩)
      cases accountsStep hs with
      | same _ hlog => exact old (hlog x hx (by rw [ho]; rfl))
      | created hlog _ hused _ =>
          rw [hlog] at hx
          rcases List.mem_cons.mp hx with rfl | hx
          · cases ho
            rw [hused]
            exact List.mem_cons_self
          · exact old hx
      | deleted hlog _ _ =>
          rw [hlog] at hx
          rcases List.mem_cons.mp hx with rfl | hx
          · cases ho
          · exact old hx

theorem member_of_gone (hrun : Run (Paired fate) emptyWorld w) :
    ∀ u, Gone w u → Member w.log u := by
  induction hrun with
  | refl => exact fun u ⟨x, hx, _⟩ => by cases hx
  | @step w w' e hrun _ hstep ih =>
      rintro u ⟨x, hx, ho⟩
      have hs := stepped_of_step hstep
      have old : x ∈ w.log → Member w'.log u := fun hx => (ih u ⟨x, hx, ho⟩).mono hs.log
      cases accountsStep hs with
      | same _ hlog => exact old (hlog x hx (by rw [ho]; rfl))
      | created hlog _ _ _ =>
          rw [hlog] at hx
          rcases List.mem_cons.mp hx with rfl | hx
          · cases ho
          · exact old hx
      | deleted hlog hex _ =>
          rw [hlog] at hx
          rcases List.mem_cons.mp hx with rfl | hx
          · cases ho
            obtain ⟨a, ha, rfl⟩ := hex
            exact ((sound_of_run hrun).accounts a ha).member.mono hs.log
          · exact old hx

/-- An account is there if it was registered and not deleted since. -/
theorem account_iff (hrun : Run (Paired fate) emptyWorld w) (u : Uid) :
    (∃ a ∈ w.server.accounts, a.uid = u) ↔ Member w.log u ∧ ¬ Gone w u := by
  induction hrun with
  | refl =>
      constructor
      · rintro ⟨a, ha, -⟩
        cases ha
      · rintro ⟨⟨x, hx, -⟩, -⟩
        cases hx
  | @step w w' e hrun _ hstep ih =>
      have hs := stepped_of_step hstep
      cases accountsStep hs with
      | same hacc hlog =>
          have hmem : Member w'.log u ↔ Member w.log u :=
            ⟨fun ⟨x, hx, email, password, ho⟩ =>
              ⟨x, hlog x hx (by rw [ho]; rfl), email, password, ho⟩, fun h => h.mono hs.log⟩
          have hgone : Gone w' u ↔ Gone w u :=
            ⟨fun ⟨x, hx, ho⟩ => ⟨x, hlog x hx (by rw [ho]; rfl), ho⟩, fun h => h.mono hs.log⟩
          rw [hacc, hmem, hgone, ih]
      | @created d t email password uid hlog hnew _ hacc =>
          have hgone : Gone w' u ↔ Gone w u := by
            refine ⟨fun ⟨x, hx, ho⟩ => ⟨x, ?_, ho⟩, fun h => h.mono hs.log⟩
            rw [hlog] at hx
            rcases List.mem_cons.mp hx with rfl | hx
            · cases ho
            · exact hx
          rw [hacc, hgone]
          by_cases hu : uid = u
          · subst hu
            have hfresh : ¬ Gone w uid := fun h =>
              hnew (used_of_member hrun uid (member_of_gone hrun uid h))
            exact iff_of_true ⟨_, List.mem_cons_self, rfl⟩
              ⟨⟨_, hlog ▸ List.mem_cons_self, email, password, rfl⟩, hfresh⟩
          · have hmem : Member w'.log u ↔ Member w.log u := by
              refine ⟨fun ⟨x, hx, em, pw, ho⟩ => ⟨x, ?_, em, pw, ho⟩, fun h => h.mono hs.log⟩
              rw [hlog] at hx
              rcases List.mem_cons.mp hx with rfl | hx
              · cases ho
                exact absurd rfl hu
              · exact hx
            rw [hmem, ← ih]
            simp [hu]
      | @deleted d t uid hlog hex hacc =>
          have hmem : Member w'.log u ↔ Member w.log u := by
            refine ⟨fun ⟨x, hx, em, pw, ho⟩ => ⟨x, ?_, em, pw, ho⟩, fun h => h.mono hs.log⟩
            rw [hlog] at hx
            rcases List.mem_cons.mp hx with rfl | hx
            · cases ho
            · exact hx
          rw [hacc, hmem]
          by_cases hu : uid = u
          · subst hu
            refine iff_of_false ?_ fun h => h.2 ⟨_, hlog ▸ List.mem_cons_self, rfl⟩
            rintro ⟨a, ha, rfl⟩
            simp at ha
          · have hgone : Gone w' u ↔ Gone w u := by
              refine ⟨fun ⟨x, hx, ho⟩ => ⟨x, ?_, ho⟩, fun h => h.mono hs.log⟩
              rw [hlog] at hx
              rcases List.mem_cons.mp hx with rfl | hx
              · cases ho
                exact absurd rfl hu
              · exact hx
            rw [hgone, ← ih]
            constructor
            · rintro ⟨a, ha, rfl⟩
              exact ⟨a, List.mem_of_mem_filter ha, rfl⟩
            · rintro ⟨a, ha, rfl⟩
              exact ⟨a, List.mem_filter.mpr ⟨ha, by simpa using Ne.symm hu⟩, rfl⟩

end DogVillage
