import DogVillage.Accounts

/-!
# What becomes of a deletion

The two calls of a deletion are counted on the device that makes them. At
rest there are as many of either as deletions were started there, so the
`n`-th of one and the `n`-th of the other have the same fate: the account
is gone if and only if its document is.
-/

namespace DogVillage

open Async

variable {D : Type} [DecidableEq D] {fate : D → Uid → Nat → Bool} {w w' : World village D}
  {e : Event village D} {u : Uid}

/-! ## Who deletes what -/

omit [DecidableEq D] in
theorem deletedUser_wrote {v : Uid} {r : Option FIRError} :
    deletedUser u (deletion v) (.wrote (.delete ⟨.users, v⟩) r) = true ↔ v = u := by
  simp [deletedUser, deletion]

omit [DecidableEq D] in
theorem deletedAccount_answered {t : Call} {v : Uid} {a : (Ask.deleteAccount v).Ans} :
    deletedAccount u t (.answered (.deleteAccount v) a) = true ↔ t = deletion u := by
  simp [deletedAccount]

/-- A call is for an account that was registered. -/
theorem member_of_active {ok : World village D → Event village D → Prop}
    (hrun : Run ok emptyWorld w) {d : D} {t : Call} {v : Uid} :
    w.Active d t → t.actor = some v → Member w.log v := by
  induction hrun with
  | refl => exact fun h => absurd h not_active_emptyWorld
  | @step w w' e hrun _ hstep ih =>
      intro h hv
      have hs := stepped_of_step hstep
      rcases active_of_step hs h with h | ⟨a, rfl, rfl⟩
      · exact (ih h hv).mono hs.log
      · have hsound := sound_of_run hrun
        exact ((hsound.code.loc d).currentUser v hv).mono hs.log

/-- Registrations and deletions are answered to calls of their own. -/
theorem op_of_answered {ok : World village D → Event village D → Prop}
    (hrun : Run ok emptyWorld w) : ∀ x ∈ w.log, ∀ q a, x.obs = .answered q a →
      ((∃ email password, q = .createUser email password) → x.tag.op = .register) ∧
        ((∃ v, q = .deleteAccount v) → x.tag.op = .delete) := by
  induction hrun with
  | refl => exact fun x hx => by cases hx
  | @step w w' e hrun _ hstep ih =>
      intro x hx q a ho
      have hs := stepped_of_step hstep
      rcases answered_of_step hs hx ho with hx | ⟨h, hm | hm, -⟩
      · exact ih x hx q a ho
      · have hsound := sound_of_run hrun
        have hok : AskOk x.tag q h := ((hsound.code.held _).asks _ hm).1
        constructor
        · rintro ⟨email, password, rfl⟩
          exact hok.2
        · rintro ⟨v, rfl⟩
          exact hok
      · have hsound := sound_of_run hrun
        obtain ⟨query, rfl⟩ := ((hsound.code.held _).listeners _ hm).1
        constructor <;> rintro ⟨_, h⟩
        · obtain ⟨_, h⟩ := h
          cases h
        · cases h

omit [DecidableEq D] in
theorem takes_active {d : D} {j : Job village} (h : e.Takes w d j) : w.Active d j.tag := by
  cases h with
  | next hin =>
      refine Device.mem_tags.mpr (Or.inl ⟨j, ?_, rfl⟩)
      simp [Device.jobs, hin]
  | run htake =>
      exact Device.take_tags htake (Or.inl rfl)

theorem strayDeletions_generous : strayDeletions.Generous :=
  Tally.generous_balance (fun _ _ _ => rfl) nonempty_ans nonempty_env
    fun _ => ⟨{}, fun _ => Or.inr rfl⟩

theorem strayDeletions_tallied (hrun : Run (Paired fate) emptyWorld w) (d : D) :
    strayDeletions.Tallied d w := by
  induction hrun with
  | refl => exact Tally.tallied_of_idle rfl rfl rfl
  | @step w w' e _ hok hstep ih =>
      refine ih.step (stepped_of_step hstep) (fun a _ => strayDeletions_action a _) ?_
      intro j hj hr ht
      exact (hok.found d j hj ht hr).imp_right And.left

/-- The account a deletion deletes is the one that started it. -/
theorem tag_of_deleteAccount (hrun : Run (Paired fate) emptyWorld w) {d : D} {m : Asked village}
    (hm : m ∈ (w.devices d).asks) {v : Uid} (hq : m.q = .deleteAccount v) :
    m.tag = deletion v := by
  obtain ⟨t, q, h⟩ := m
  simp only at hq
  subst hq
  have hok : AskOk t (.deleteAccount v) h :=
    (((sound_of_run hrun).code.held d).asks _ hm).1
  have hle := (strayDeletions_tallied hrun d).asked strayDeletions_generous hm none
  rw [strayDeletions_total] at hle
  have hactor : t.actor = some v := by
    by_contra hne
    have hone : strayDeletions.value t (.answered (.deleteAccount v) none) = 1 := by
      have hop : t.op = .delete := hok
      simp [strayDeletions, Tally.balance, strayDeletion, hop, hne]
    rw [hone] at hle
    have := Int.natCast_nonneg (Tally.count d strayDeletion w.log)
    linarith
  obtain ⟨_, _⟩ := t
  cases hactor
  cases (show _ = Op.delete from hok)
  rfl

/-! ## Counting the two calls -/

theorem deletedUser_own {t : Call} {o : Obs sig} (h : o.isOwn = true) :
    deletedUser u t o = false := by
  cases o <;> first | rfl | cases h

theorem deletedAccount_own {t : Call} {o : Obs sig} (h : o.isOwn = true) :
    deletedAccount u t o = false := by
  cases o <;> first | rfl | cases h

/-- The documents, by their fates. -/
theorem erased_iff (hrun : Run (Paired fate) emptyWorld w) (u : Uid) :
    Erased w u ↔
      ∃ d k, k < Tally.count d (deletedUser u) w.log ∧ fate d u k = true := by
  induction hrun with
  | refl =>
      constructor
      · rintro ⟨x, hx, -⟩
        cases hx
      · rintro ⟨d, k, hk, -⟩
        cases hk
  | @step w w' e hrun hok hstep ih =>
      have hs := stepped_of_step hstep
      -- a step that logs no deletion of the document
      have same : (∀ d, Tally.count d (deletedUser u) w'.log =
            Tally.count d (deletedUser u) w.log) →
          (∀ x ∈ w'.log, x.obs = .wrote (.delete ⟨.users, u⟩) none → x ∈ w.log) →
          (Erased w' u ↔
            ∃ d k, k < Tally.count d (deletedUser u) w'.log ∧ fate d u k = true) := by
        intro hcount hlog
        have her : Erased w' u ↔ Erased w u :=
          ⟨fun ⟨x, hx, ho⟩ => ⟨x, hlog x hx ho, ho⟩, fun ⟨x, hx, ho⟩ => ⟨x, hs.log.subset hx, ho⟩⟩
        simp only [hcount, her, ih]
      cases hs.logs with
      | acted he hlog =>
          refine same (fun d => by rw [hlog]; exact Tally.count_cons rfl) fun x hx ho => ?_
          rw [hlog] at hx
          rcases List.mem_cons.mp hx with rfl | hx
          · cases ho
          · exact hx
      | answered hans hlog =>
          refine same (fun d => by rw [hlog]; exact Tally.count_cons rfl) fun x hx ho => ?_
          rw [hlog] at hx
          rcases List.mem_cons.mp hx with rfl | hx
          · cases ho
          · exact hx
      | own hlog hl =>
          refine same (fun d => ?_) fun x hx ho => ?_
          · rw [hlog]
            exact Tally.count_append fun x hx => deletedUser_own (hl x hx)
          · rw [hlog] at hx
            rcases List.mem_append.mp hx with hx | hx
            · have hown := hl x hx
              rw [ho] at hown
              cases hown
            · exact hx
      | @wrote d fail m ms he hw hlog =>
          have hmem : m ∈ (w.devices d).writes := by rw [hw]; exact List.mem_cons_self
          by_cases hm : m.write = .delete ⟨.users, u⟩
          · obtain ⟨hfate, -⟩ := hok.user d fail m ms u he hw hm
            have htag : m.tag = deletion u := by
              have hok : WriteOk False w.log m.tag m.write :=
                (((sound_of_run hrun).code.held d).writes m hmem).1
              rw [hm] at hok
              exact hok
            have hres : (settle village m.write fail w.server).2 = none ↔ fail = none := by
              refine ⟨fun h => (docs_accepted h).1, ?_⟩
              rintro rfl
              rw [hm]
              rfl
            have hp : deletedUser u m.tag
                (.wrote m.write (settle village m.write fail w.server).2) = true := by
              rw [hm, htag]
              exact deletedUser_wrote.mpr rfl
            have her : Erased w' u ↔ Erased w u ∨ fail = none := by
              constructor
              · rintro ⟨x, hx, ho⟩
                rw [hlog] at hx
                rcases List.mem_cons.mp hx with rfl | hx
                · exact Or.inr (hres.mp (Obs.wrote.inj ho).2)
                · exact Or.inl ⟨x, hx, ho⟩
              · rintro (⟨x, hx, ho⟩ | hfail)
                · exact ⟨x, hs.log.subset hx, ho⟩
                · refine ⟨_, hlog ▸ List.mem_cons_self, ?_⟩
                  show Obs.wrote _ _ = _
                  rw [hres.mpr hfail, hm]
            rw [her, ih, hlog]
            constructor
            · rintro (⟨d', k, hk, hf⟩ | hfail)
              · exact ⟨d', k, Tally.lt_count_cons.mpr (Or.inl hk), hf⟩
              · exact ⟨d, _, Tally.lt_count_cons.mpr (Or.inr ⟨rfl, hp, rfl⟩), hfate.mp hfail⟩
            · rintro ⟨d', k, hk, hf⟩
              rcases Tally.lt_count_cons.mp hk with hk | ⟨rfl, -, rfl⟩
              · exact Or.inl ⟨d', k, hk, hf⟩
              · exact Or.inr (hfate.mpr hf)
          · have hp : deletedUser u m.tag
                (.wrote m.write (settle village m.write fail w.server).2) = false := by
              have hok : WriteOk False w.log m.tag m.write :=
                (((sound_of_run hrun).code.held d).writes m hmem).1
              by_contra htrue
              obtain ⟨t, wr, h⟩ := m
              cases wr with
              | delete r =>
                  obtain ⟨c, i⟩ := r
                  simp only [deletedUser, Bool.not_eq_false, decide_eq_true_eq] at htrue
                  obtain ⟨ht, rfl⟩ := htrue
                  have ht' : t = deletion i := hok
                  rw [ht] at ht'
                  cases ht'
                  exact hm rfl
              | _ => exact htrue rfl
            refine same (fun d => by rw [hlog]; exact Tally.count_cons hp) fun x hx ho => ?_
            rw [hlog] at hx
            rcases List.mem_cons.mp hx with rfl | hx
            · exact absurd (Obs.wrote.inj ho).1 hm
            · exact hx

/-- The answer to a deletion is to a call of the account it deletes. -/
theorem answered_deletion (hrun : Run (Paired fate) emptyWorld w) {d : D} {t : Call} {v : Uid}
    {a : (Ask.deleteAccount v).Ans} {srv : Server}
    (hans : e.Answers w d t (.deleteAccount v) a srv) :
    t = deletion v ∧ ∃ i c h, e = .answer d i c ∧
      (w.devices d).asks[i]? = some ⟨t, .deleteAccount v, h⟩ ∧
        Server.serve (.deleteAccount v) c w.server = some (a, srv) := by
  rcases hans.call with ⟨i, c, h, he, hi, hv⟩ | ⟨h, hm⟩
  · have hm := List.mem_of_getElem? hi
    exact ⟨tag_of_deleteAccount hrun hm rfl, i, c, h, he, hi, hv⟩
  · obtain ⟨query, hq⟩ := (((sound_of_run hrun).code.held d).listeners _ hm).1
    cases hq

theorem serve_deleteAccount {v : Uid} {c : Server.Choice} {srv srv' : Server}
    {a : (Ask.deleteAccount v).Ans} (h : Server.serve (.deleteAccount v) c srv = some (a, srv')) :
    (a = none → c = .ok) ∧ (c = .ok → a ≠ none → ¬ ∃ x ∈ srv.accounts, x.uid = v) := by
  cases c with
  | ok =>
      refine ⟨fun _ => rfl, fun _ hne => ?_⟩
      rintro ⟨x, hx, rfl⟩
      have hany : srv.accounts.any (·.uid == x.uid) = true := List.any_eq_true.mpr ⟨x, hx, by simp⟩
      simp only [Server.serve, hany, if_true, Option.some.injEq, Prod.mk.injEq] at h
      exact hne h.1.symm
  | fail err =>
      cases h
      exact ⟨fun h => (Option.some_ne_none _ h).elim, fun hc => by cases hc⟩
  | _ => cases h

/-- A call that was to succeed left no account. -/
theorem gone_of_fate (hrun : Run (Paired fate) emptyWorld w) (u : Uid) :
    ∀ d k, k < Tally.count d (deletedAccount u) w.log → fate d u k = true → Gone w u := by
  induction hrun with
  | refl => exact fun d k hk => by cases hk
  | @step w w' e hrun hok hstep ih =>
      intro d k hk hf
      have hs := stepped_of_step hstep
      have old : k < Tally.count d (deletedAccount u) w.log → Gone w' u := fun hk =>
        (ih d k hk hf).mono hs.log
      cases hs.logs with
      | acted he hlog | wrote he hw hlog =>
          rw [hlog] at hk
          exact old (hk.trans_eq (Tally.count_cons rfl))
      | own hlog hl =>
          rw [hlog] at hk
          exact old (hk.trans_eq (Tally.count_append fun x hx => deletedAccount_own (hl x hx)))
      | @answered d' t q a hans hlog =>
          rw [hlog] at hk
          rcases Tally.lt_count_cons.mp hk with hk | ⟨rfl, hp, rfl⟩
          · exact old hk
          · cases q with
            | deleteAccount v =>
                obtain ⟨ht, i, c, h, he, hi, hv⟩ := answered_deletion hrun hans
                have htu : t = deletion u := deletedAccount_answered.mp hp
                have hvu : v = u := by
                  rw [ht] at htu
                  cases htu
                  rfl
                subst hvu
                have hc : c = .ok := (hok.account _ i c _ v v he hi rfl ht).mpr hf
                by_cases ha : a = none
                · exact ⟨_, hlog ▸ List.mem_cons_self, by rw [ha]⟩
                · have hno := (serve_deleteAccount hv).2 hc ha
                  have hact : w.Active d' t :=
                    Device.mem_tags.mpr (Or.inr (Or.inr (Or.inl ⟨_, List.mem_of_getElem? hi, rfl⟩)))
                  have hmem : Member w.log v := member_of_active hrun hact (by rw [ht]; rfl)
                  exact (not_not.mp fun h => hno ((account_iff hrun v).mpr ⟨hmem, h⟩)).mono hs.log
            | _ => cases hp

/-- While the account is there, as many calls to delete it as deletions. -/
theorem deletions_tallied (hrun : Run (Paired fate) emptyWorld w) (u : Uid) (s : ℤ) :
    ¬ Gone w u → ∀ d, (accountDeletions u s).Tallied d w := by
  induction hrun with
  | refl => exact fun _ d => Tally.tallied_of_idle rfl rfl rfl
  | @step w w' e hrun hok hstep ih =>
      intro hgone d
      have hs := stepped_of_step hstep
      have hgone' : ¬ Gone w u := fun h => hgone (h.mono hs.log)
      refine (ih hgone' d).step hs (fun a _ => accountDeletions_action a _) ?_
      intro j hj hr ht
      rcases hok.found d j hj (by rw [ht]; rfl) hr with h | ⟨-, h⟩
      · rw [h, ht]
        rfl
      · have hno : ¬ ∃ a ∈ w.server.accounts, a.uid = u := by
          rintro ⟨a, ha, rfl⟩
          exact h a ha (by rw [ht]; rfl)
        have hmem : Member w.log u := member_of_active hrun (takes_active hj) (by rw [ht]; rfl)
        exact absurd ((account_iff hrun u).mpr ⟨hmem, hgone'⟩) hno

theorem startedDeletion_eq {t : Call} {o : Obs sig} (ho : o ≠ .acted) :
    startedDeletion u t o = false := by
  cases o <;> first | rfl | exact absurd rfl ho

theorem accountDeletions_generous (u : Uid) : (accountDeletions u 1).Generous :=
  Tally.generous_balance (fun _ _ => startedDeletion_eq) nonempty_ans nonempty_env
    fun _ => ⟨{ currentUser := some u }, fun _ => rfl⟩

/-- An account is gone by a deletion that was to succeed. -/
theorem started_of_gone (hrun : Run (Paired fate) emptyWorld w) (u : Uid) :
    Gone w u → ∃ d k, k < Tally.count d (startedDeletion u) w.log ∧ fate d u k = true := by
  induction hrun with
  | refl => exact fun ⟨x, hx, _⟩ => by cases hx
  | @step w w' e hrun hok hstep ih =>
      rintro ⟨x, hx, ho⟩
      have hs := stepped_of_step hstep
      have old : Gone w u →
          ∃ d k, k < Tally.count d (startedDeletion u) w'.log ∧ fate d u k = true := fun h => by
        obtain ⟨d, k, hk, hf⟩ := ih h
        exact ⟨d, k, hk.trans_le (Tally.count_mono hs.log), hf⟩
      by_cases hgone : Gone w u
      · exact old hgone
      · cases hs.logs with
        | acted he hlog | wrote he hw hlog =>
            rw [hlog] at hx
            rcases List.mem_cons.mp hx with rfl | hx
            · cases ho
            · exact old ⟨x, hx, ho⟩
        | own hlog hl =>
            rw [hlog] at hx
            rcases List.mem_append.mp hx with hx | hx
            · have hown := hl x hx
              rw [ho] at hown
              cases hown
            · exact old ⟨x, hx, ho⟩
        | @answered d t q a hans hlog =>
            rw [hlog] at hx
            rcases List.mem_cons.mp hx with rfl | hx
            · cases ho
              obtain ⟨ht, i, c, h, he, hi, hv⟩ := answered_deletion hrun hans
              have hc : c = .ok := (serve_deleteAccount hv).1 rfl
              have hf := (hok.account _ i c _ u u he hi rfl ht).mp hc
              refine ⟨d, _, ?_, hf⟩
              -- the call just answered counts against the deletions started
              have hle := (deletions_tallied hrun u 1 hgone d).asked
                (accountDeletions_generous u) (List.mem_of_getElem? hi) none
              rw [accountDeletions_total] at hle
              have hval : (accountDeletions u 1).value t (.answered (.deleteAccount u) none) = 1 := by
                simp [accountDeletions, Tally.balance, deletedAccount, startedDeletion, ht]
              rw [hval] at hle
              have hlt : (Tally.count d (deletedAccount u) w.log : ℤ) <
                  Tally.count d (startedDeletion u) w.log := by linarith
              exact (Int.ofNat_lt.mp hlt).trans_le (Tally.count_mono hs.log)
            · exact old ⟨x, hx, ho⟩

/-! ## At rest -/

theorem userDeletions_tallied {ok : World village D → Event village D → Prop}
    (hrun : Run ok emptyWorld w) (u : Uid) (s : ℤ) (d : D) : (userDeletions u s).Tallied d w :=
  Tally.Tallied.of_run userDeletions_action (fun _ _ => trivial)
    (Tally.tallied_of_idle rfl rfl rfl) hrun

theorem userDeletions_generous (u : Uid) : (userDeletions u 1).Generous :=
  Tally.generous_balance (fun _ _ => startedDeletion_eq) nonempty_ans nonempty_env
    fun _ => ⟨{}, trivial⟩

/-- A tally of which only account calls are debits is even at rest. -/
theorem credits_le {debit credit : Call → Obs sig → Bool} {sees : Call → App → Prop} {d : D}
    (h : (Tally.balance debit credit (-1) sees : Tally village).Tallied d w)
    (hquiet : AccountsQuiet w) (hdebit : ∀ t o, accountCall o = false → debit t o = false)
    (hsees : ∀ t, ∃ app, sees t app) :
    Tally.count d credit w.log ≤ Tally.count d debit w.log := by
  have hle := h.settled nonempty_ans nonempty_env hsees ((hquiet d).mono fun o ho t => ?_)
  · have htotal : (Tally.balance debit credit (-1) sees : Tally village).total d w.log =
        -1 * Tally.count d debit w.log - -1 * Tally.count d credit w.log := Tally.total_balance w.log
    rw [htotal] at hle
    have hle' : (Tally.count d credit w.log : ℤ) ≤ Tally.count d debit w.log := by linarith
    exact Int.ofNat_le.mp hle'
  · show 0 ≤ -1 * (debit t o).toInt - -1 * (credit t o).toInt
    rw [hdebit t o ho]
    cases credit t o <;> simp

variable (hquiet : AccountsQuiet w)

include hquiet

theorem existed_of_member (hrun : Run (Paired fate) emptyWorld w) (h : Member w.log u) :
    Existed w ⟨.users, u⟩ := by
  obtain ⟨x, hx, email, password, ho⟩ := h
  have hop := (op_of_answered hrun x hx _ _ ho).1 ⟨email, password, rfl⟩
  have hle : Tally.count x.device (registered u) w.log ≤
      Tally.count x.device (wroteUser u) w.log :=
    credits_le (registrations_tallied hrun u (-1) x.device) hquiet
      (fun t o ho => by
        unfold wroteUser
        split
        · next r data res =>
            simp only [decide_eq_false_iff_not, not_and]
            rintro - rfl
            cases ho
        · rfl) fun _ => ⟨{}, trivial⟩
  have hpos : 0 < Tally.count x.device (registered u) w.log :=
    Tally.count_pos.mpr ⟨x, hx, rfl, by simp [registered, ho, hop]⟩
  obtain ⟨y, hy, -, hp⟩ := Tally.count_pos.mp (hpos.trans_le hle)
  obtain ⟨d, t, o⟩ := y
  cases o with
  | wrote wr r =>
      cases wr with
      | setData ref data =>
          simp only [wroteUser, decide_eq_true_eq] at hp
          obtain ⟨-, rfl⟩ := hp
          have hr := written_accepted hrun _ hy u data r rfl
          exact ⟨_, hy, data, by rw [hr]⟩
      | _ => cases hp
  | _ => cases hp

/-- At rest every deletion has made its call for the document. -/
theorem startedDeletion_le (hrun : Run (Paired fate) emptyWorld w) (d : D) :
    Tally.count d (startedDeletion u) w.log ≤ Tally.count d (deletedUser u) w.log :=
  credits_le (userDeletions_tallied hrun u (-1) d) hquiet
    (fun t o ho => by
      unfold deletedUser
      split
      · next r res =>
          obtain ⟨c, i⟩ := r
          simp only [decide_eq_false_iff_not, not_and]
          rintro - rfl
          cases ho
      · rfl) fun _ => ⟨{}, trivial⟩

theorem gone_iff_erased (hrun : Run (Paired fate) emptyWorld w) : Gone w u ↔ Erased w u := by
  constructor
  · intro h
    obtain ⟨d, k, hk, hf⟩ := started_of_gone hrun u h
    exact (erased_iff hrun u).mpr ⟨d, k, hk.trans_le (startedDeletion_le hquiet hrun d), hf⟩
  · intro h
    by_contra hgone
    obtain ⟨d, k, hk, hf⟩ := (erased_iff hrun u).mp h
    have hstarted : Tally.count d (deletedUser u) w.log ≤
        Tally.count d (startedDeletion u) w.log := by
      have hle := (userDeletions_tallied hrun u 1 d).le (userDeletions_generous u)
      rw [userDeletions_total] at hle
      exact Int.ofNat_le.mp (by linarith)
    have hdeleted : Tally.count d (startedDeletion u) w.log ≤
        Tally.count d (deletedAccount u) w.log :=
      credits_le (deletions_tallied hrun u (-1) hgone d) hquiet
        (fun t o ho => by
          unfold deletedAccount
          split
          · cases ho
          · rfl) fun _ => ⟨{ currentUser := some u }, fun _ => rfl⟩
    exact hgone (gone_of_fate hrun u d k (hk.trans_le (hstarted.trans hdeleted)) hf)

/-- At rest the accounts and their documents are in line. -/
theorem accounts_paired (hrun : Run (Paired fate) emptyWorld w) : AccountsPaired w := by
  have hpaired : ∀ u, (∃ a ∈ w.server.accounts, a.uid = u) ↔
      w.server.present ⟨.users, u⟩ = true := fun u => by
    rw [present_iff hrun, account_iff hrun, gone_iff_erased hquiet hrun]
    exact and_congr_left' ⟨existed_of_member hquiet hrun, existed_member (sound_of_run hrun)⟩
  refine ⟨hpaired, fun a ha => ⟨(sound_of_run hrun).accounts a ha, ?_⟩⟩
  exact ((present_iff hrun a.uid).mp ((hpaired a.uid).mp ⟨a, ha, rfl⟩)).1

omit hquiet

/-! ## A registration and a deletion -/

/-- A test for `Paired` with every call carried out. -/
def pairedTest (w : World village D) : Event village D → Bool
  | .commit d fail =>
      fail = none &&
        match (w.devices d).writes with
        | ⟨_, .delete ⟨.users, u⟩, _⟩ :: _ =>
            w.log.any fun x =>
              match x.obs with
              | .wrote (.setData r _) none => r = ⟨.users, u⟩
              | _ => false
        | _ => true
  | .answer d i c =>
      match (w.devices d).asks[i]? with
      | some ⟨_, .deleteAccount _, _⟩ => isOk c
      | _ => true
  | .next d =>
      match (w.devices d).inbox with
      | j :: _ => ownDeletion (w.devices d).loc j
      | [] => true
  | .run d s _ =>
      match (w.devices d).take s with
      | some (j, _) => ownDeletion (w.devices d).loc j
      | none => true
  | _ => true
where
  isOk : Server.Choice → Bool
    | .ok => true
    | _ => false
  ownDeletion (app : App) (j : Job village) : Bool :=
    match j with
    | ⟨_, .done⟩ => true
    | ⟨t, _⟩ => decide (Call.op t = .delete → app.currentUser = Call.actor t)

omit [DecidableEq D] in
theorem ownDeletion_found {app : App} {j : Job village} (h : pairedTest.ownDeletion app j = true)
    (ht : Call.op j.tag = .delete) (hr : j.code.Reads) : app.currentUser = Call.actor j.tag := by
  obtain ⟨t, c⟩ := j
  cases c with
  | done => exact hr.elim
  | _ => exact of_decide_eq_true h ht

theorem paired_of_test {w : World village D} {e : Event village D} (h : pairedTest w e = true) :
    Paired (fun _ _ _ => true) w e := by
  refine ⟨?_, ?_, ?_, ?_⟩
  · rintro d fail m ms u data rfl - -
    simp only [pairedTest, Bool.and_eq_true, decide_eq_true_eq] at h
    exact h.1
  · rintro d fail m ms u rfl hw hm
    simp only [pairedTest, Bool.and_eq_true, decide_eq_true_eq] at h
    refine ⟨iff_of_true h.1 rfl, fun _ => ?_⟩
    obtain ⟨t, wr, hd⟩ := m
    simp only at hm
    subst hm
    have hany := h.2
    rw [hw] at hany
    obtain ⟨x, hx, hobs⟩ := List.any_eq_true.mp hany
    split at hobs
    · next r data ho =>
        simp only [decide_eq_true_eq] at hobs
        exact ⟨x, hx, data, by rw [ho, hobs]⟩
    · cases hobs
  · rintro d i c m u v rfl hi hq -
    obtain ⟨t, q, hd⟩ := m
    simp only at hq
    subst hq
    simp only [pairedTest, hi] at h
    refine iff_of_true ?_ rfl
    generalize c = choice at h
    cases choice with
    | ok => rfl
    | _ => cases h
  · intro d j hj ht hr
    refine Or.inl ?_
    cases hj with
    | next hin =>
        simp only [pairedTest, hin] at h
        exact ownDeletion_found h ht hr
    | run htake =>
        simp only [pairedTest, htake] at h
        exact ownDeletion_found h ht hr

/-- Alice has signed up, and deleted the account. -/
def deletedAlice : World village Unit :=
  emptyWorld
    |> smooth.perform () (.signUp "alice@dog.kr" "secret" "Alice" "alice" ⟨some []⟩) 100
    |> smooth.perform () .deleteAccount 100

theorem deletedAlice_reached : Run (Paired fun _ _ _ => true) emptyWorld deletedAlice := by
  unfold deletedAlice
  refine Policy.run_checks (fun _ _ => paired_of_test) (by decide) ?_
  refine Policy.run_checks (fun _ _ => paired_of_test) (by decide) ?_
  exact .refl

/-- The listener a deletion leaves behind comes to no account call. -/
theorem deletedAlice_listener (a : Option (List (DocId × Dictionary))) :
    Code.Leads (fun o => accountCall o = false)
      (((deletedAlice.devices ()).listeners.get ⟨0, by decide⟩).handler a) := by
  cases a with
  | none => exact (trivial : Code.Leads (S := sig) (fun o => accountCall o = false) .done)
  | some documents =>
      have hdeletes : Code.Leads (S := sig) (fun o => accountCall o = false)
          (.forEach documents fun document =>
            .write (.delete ⟨.posts, document.1⟩) (fun _ => .done) .done) :=
        Code.Leads.forEach fun document _ => ⟨rfl, fun _ => ⟨rfl, trivial⟩, trivial⟩
      exact hdeletes

theorem accounts_paired_deletedAlice : AccountsPaired deletedAlice := by
  refine accounts_paired (fun () => ?_) deletedAlice_reached
  obtain ⟨hjobs, hwrites, hasks⟩ := Device.idle_iff.mp
    (show (deletedAlice.devices ()).idle = true by decide)
  have hlisteners : (deletedAlice.devices ()).listeners =
      [(deletedAlice.devices ()).listeners.get ⟨0, by decide⟩] := rfl
  constructor
  · simp [hjobs]
  · simp [hwrites]
  · simp [hasks]
  · intro m hm a
    rw [hlisteners] at hm
    cases List.mem_singleton.mp hm
    exact ⟨rfl, deletedAlice_listener a⟩

/-- The documents of new accounts are refused. -/
def noUsers : Policy village :=
  { smooth with
    refuse := fun w =>
      match w.ref.collection with
      | .users => some (.other 7)
      | _ => none }

/-- Alice's sign-up has failed at its last step. -/
def halfSignedUp : World village Unit :=
  emptyWorld
    |> noUsers.perform () (.signUp "alice@dog.kr" "secret" "Alice" "alice" ⟨some []⟩) 100

/-- Her account exists without a document, and nothing is under way; the
e-mail is taken for good. -/
theorem account_without_document : ∃ w : World village Unit,
    Run (fun _ _ => True) emptyWorld w ∧ AccountsQuiet w ∧ ¬ AccountsPaired w ∧
      (∃ x ∈ w.log, ∃ data err, x.obs = .wrote (.setData ⟨.users, "n1"⟩ data) (some err)) ∧
      ∀ password u, Server.serve (.createUser "alice@dog.kr" password) (.uid u) w.server =
        some (.error .emailAlreadyInUse, w.server) := by
  refine ⟨halfSignedUp, ?_, ?_, ?_, ?_, ?_⟩
  · exact Policy.run_perform (fun _ _ _ => trivial) trivial .refl
  · rintro ⟨⟩
    obtain ⟨hjobs, hwrites, hasks⟩ := Device.idle_iff.mp
      (show (halfSignedUp.devices ()).idle = true by decide)
    have hlisteners : (halfSignedUp.devices ()).listeners = [] := rfl
    constructor <;> simp [hjobs, hwrites, hasks, hlisteners]
  · intro h
    have hdoc := (h.documented "n1").mp ⟨⟨"n1", "alice@dog.kr", "secret"⟩, by decide, rfl⟩
    exact absurd hdoc (by decide)
  · exact ⟨_, List.mem_of_getElem? (i := 1) rfl, _, _, rfl⟩
  · exact fun password u => rfl

end DogVillage
