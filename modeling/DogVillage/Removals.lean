import DogVillage.SoundRun
import DogVillage.Async.Owe

/-!
# Who deletes whose posts

A removal compares the user the alert captured (`MainTabController.user`)
with the account signed in, and never looks at the post's owner. Where the
captured user is the account signed in exactly if the owner is, posts are
deleted by their owners only; `deletaUser` needs no such condition.
-/

namespace DogVillage

open Async

variable {D : Type} [DecidableEq D] {w w' : World village D} {e : Event village D}

/-- In an alert that is confirmed the captured user is the account signed in
exactly if the post's owner is. -/
def OwnerTold (w : World village D) (e : Event village D) : Prop :=
  ∀ d k post user a, e = .act d (.answerAlert k true) →
    (w.devices d).loc.alerts[k]? = some (post, user) →
    (w.devices d).loc.currentUser = some a → (user.uid = a ↔ post.ownerUid = a)

theorem sound_of_ownerTold (hrun : Run OwnerTold emptyWorld w) : Sound True w := by
  refine Sound.of_run (fun _ w d a h k post user ha hk huid => ?_) hrun
  exact (h d k post user user.uid (by rw [ha]) hk huid).mp rfl

/-- A document that is gone after a step was deleted by a write. -/
theorem deleted_of_step (hs : Stepped w e w') {r : Ref Collection} {data : Dictionary}
    (hget : w.server.docs.get r = some data) (hgone : w'.server.docs.get r = none) :
    ∃ d m ms, (w.devices d).writes = m :: ms ∧ m.write = .delete r ∧
      w'.log = ⟨d, m.tag, .wrote (.delete r) none⟩ :: w.log := by
  cases docsStep hs with
  | same h _ => rw [h, hget] at hgone; cases hgone
  | @wrote d m ms he hw hlog hget' =>
      rw [hget', hget] at hgone
      split at hgone
      · next hr =>
          cases hwr : m.write with
          | setData r data => rw [hwr] at hgone; cases hgone
          | updateData r data => rw [hwr] at hgone; cases hgone
          | delete r' =>
              rw [hwr] at hr hlog
              subst hr
              exact ⟨d, m, ms, hw, hwr, hlog⟩
      · cases hgone

/-- Posts are deleted by their owners only, and whenever an owner confirms it. -/
structure DeletedByOwners (w : World village D) : Prop where
  only : ∀ e w' p data, step w e = some w' →
    w.server.docs.get ⟨.posts, p⟩ = some data → w'.server.docs.get ⟨.posts, p⟩ = none →
    ∃ d t, w'.log = ⟨d, t, .wrote (.delete ⟨.posts, p⟩) none⟩ :: w.log ∧
      t.actor = some (Dictionary.string data "ownerUid")
  removal : ∀ d k post user a w₁ w₂,
    (w.devices d).loc.alerts[k]? = some (post, user) → (w.devices d).loc.currentUser = some a →
    OwnerTold w (.act d (.answerAlert k true)) → step w (.act d (.answerAlert k true)) = some w₁ →
    Run OwnerTold w₁ w₂ → (w₂.devices d).idle = true →
    ∃ l, w₂.log = l ++ w.log ∧ ((∃ r, ⟨d, ⟨some a, .remove post.postId⟩,
      .wrote (.delete ⟨.posts, post.postId⟩) r⟩ ∈ l) ↔ post.ownerUid = a)

/-- The removal of a post. -/
def removal (p : DocId) : Debt sig where
  write wr := wr = .delete ⟨.posts, p⟩

/-- A confirmed alert whose captured user is signed in owes the removal. -/
theorem owes_removal {app : App} {k : Nat} {post : Post} {user : User}
    (hk : app.alerts[k]? = some (post, user)) (huid : app.currentUser = some user.uid) :
    (removal post.postId).Owes ((Action.answerAlert k true).block.start app) := by
  have htap := removeTap k true app
  generalize (Action.answerAlert k true).op app = op at htap
  generalize (Action.answerAlert k true).block.start app = b at htap ⊢
  cases htap with
  | none hk' => rw [hk] at hk'; cases hk'
  | no _ hyes => cases hyes
  | kept hk' _ hne =>
      rw [hk] at hk'
      cases hk'
      exact absurd huid hne
  | removed hk' _ _ =>
      rw [hk] at hk'
      cases hk'
      exact ⟨fun _ _ => trivial, fun _ _ => trivial, Or.inl rfl⟩

omit [DecidableEq D] in
/-- A deletion of a post on its way is its owner's. -/
theorem deleter_of_sent (h : Sound True w) {d : D} {m : Sent village}
    (hm : m ∈ (w.devices d).writes) {p : DocId} (hp : m.write = .delete ⟨.posts, p⟩) :
    ∃ u, m.tag.actor = some u ∧ Owner w.log p u := by
  have hok : WriteOk True w.log m.tag m.write := ((h.code.held d).writes m hm).1
  rw [hp] at hok
  exact hok.2 trivial

/-- Confirming an alert owes the removal, if the post's owner does it. -/
theorem owedBy_removal {w₁ : World village D} {d : D} {k : Nat} {post : Post} {user : User}
    {a : Uid} (hk : (w.devices d).loc.alerts[k]? = some (post, user))
    (huid : (w.devices d).loc.currentUser = some a) (huser : user.uid = a)
    (hstep : step w (.act d (Action.answerAlert k true)) = some w₁) :
    (removal post.postId).OwedBy (w₁.devices d) ⟨some a, .remove post.postId⟩ := by
  cases stepped_of_step hstep with
  | act hmain =>
      rw [World.put_device]
      refine Or.inl ⟨_, by rw [Device.begin_jobs hmain]; exact List.mem_cons_self, ?_, ?_⟩
      · show (⟨(w.devices d).loc.currentUser, (Action.answerAlert k true).op _⟩ : Call) = _
        rw [huid, Action.op, hk]
      · exact owes_removal hk (huser ▸ huid)

/-- In a run whose confirmed alerts tell the owner, posts are deleted by
their owners only, and whenever an owner confirms it. -/
theorem deletedByOwners (hrun : Run OwnerTold emptyWorld w) : DeletedByOwners w where
  only e w' p data hstep hget hgone := by
    have hw := sound_of_ownerTold hrun
    obtain ⟨d, m, ms, hwrites, hm, hlog⟩ := deleted_of_step (stepped_of_step hstep) hget hgone
    obtain ⟨u, hu, ho⟩ := deleter_of_sent hw (by rw [hwrites]; exact List.mem_cons_self) hm
    obtain ⟨⟨⟨u', ⟨hl, -⟩, ho'⟩, -⟩, -⟩ := hw.docs _ _ hget
    exact ⟨d, m.tag, hlog, by rw [hu, string_of_lookup hl, hw.owner_unique ho ho']⟩
  removal d k post user a w₁ w₂ hk huid htold hstep hrun' hidle := by
    have hw := sound_of_ownerTold hrun
    have hrun₂ : Run OwnerTold emptyWorld w₂ := (Run.step hrun htold hstep).trans hrun'
    have hpost := ((hw.code.loc d).alerts _ (List.mem_of_getElem? hk)).1
    obtain ⟨x, hx⟩ : ∃ x, w₁.log = x :: w.log := by
      cases stepped_of_step hstep
      exact ⟨_, rfl⟩
    obtain ⟨l, hl⟩ := hrun'.log
    have hlog : w₂.log = (l ++ [x]) ++ w.log := by rw [← hl, hx]; simp
    refine ⟨l ++ [x], hlog, ?_, fun howner => ?_⟩
    · rintro ⟨r, hmem⟩
      have hmem₂ := List.mem_append_left w.log hmem
      rw [← hlog] at hmem₂
      obtain ⟨-, hstrict⟩ := (sound_of_ownerTold hrun₂).wrote _ hmem₂ _ r rfl
      obtain ⟨u, hu, ho⟩ := hstrict trivial
      cases hu
      have hgrow : w.log <:+ w₂.log := ⟨l ++ [x], hlog.symm⟩
      exact (sound_of_ownerTold hrun₂).owner_unique (hpost.owner.mono hgrow) ho
    · have huser := (htold d k post user a rfl hk huid).mpr howner
      have howed := owedBy_removal hk huid huser hstep
      obtain ⟨l', hl', hpaid⟩ := howed.run (fun _ _ _ => ⟨trivial, fun _ _ _ _ _ => trivial,
        fun _ _ _ _ => trivial⟩) hrun'
      rw [← hl, List.append_cancel_right_eq] at hl'
      subst hl'
      rcases hpaid with howed | ⟨y, hy, rfl, ht, ⟨wr, r, rfl, hobs⟩ | ⟨_, _, hask, _⟩⟩
      · exact absurd howed (Debt.not_owedBy_of_idle hidle _)
      · refine ⟨r, List.mem_append_left _ ?_⟩
        rw [← ht, ← hobs]
        exact hy
      · exact hask.elim

omit [DecidableEq D] in
theorem ownerTold_of_noRemoval (h : NoRemoval w e) : OwnerTold w e :=
  fun _ _ _ _ _ he => absurd he (h _ _)

/-- Alice's own post, with the alert on display. -/
def alerted : World village Unit := smooth.perform () (.tapRemove 0 0) 100 ownPost

/-- She confirms it. -/
def confirmed : World village Unit := smooth.perform () (.answerAlert 0 true) 100 alerted

theorem ownerTold_alerted : OwnerTold alerted (.act () (.answerAlert 0 true)) := by
  intro d k post user a he hk huid
  cases he
  have hpost : (alerted.devices ()).loc.alerts[0]?.map (fun x => (x.2.uid, x.1.ownerUid)) =
      (alerted.devices ()).loc.currentUser.map fun a => (a, a) := by decide
  rw [hk, huid] at hpost
  obtain ⟨huser, howner⟩ := Prod.mk.inj (Option.some.inj hpost)
  exact ⟨fun _ => howner, fun _ => huser⟩

theorem deletedByOwners_confirmed : DeletedByOwners confirmed ∧
    (alerted.server.docs.get ⟨.posts, "n3"⟩).isSome = true ∧
    confirmed.server.docs.get ⟨.posts, "n3"⟩ = none := by
  refine ⟨deletedByOwners ?_, by decide, by decide⟩
  have hpick : ∀ w e, smooth.pick () w = some e → OwnerTold w e :=
    fun w e h => ownerTold_of_noRemoval (noRemoval_of_pick h)
  have htap : Run OwnerTold emptyWorld alerted :=
    Policy.run_perform hpick (ownerTold_of_noRemoval fun _ _ h => by cases h)
      (ownPost_reached.mono fun _ _ h => ownerTold_of_noRemoval h)
  exact Policy.run_perform hpick ownerTold_alerted htap

/-- Alice has signed out and Bob has signed up on her device; his feed shows
her post, and he has the alert on display. -/
def strangersPost : World village Unit :=
  ownPost
    |> smooth.perform () .logout 100
    |> smooth.perform () (.signUp "bob@dog.kr" "secret" "Bob" "bob" ⟨some []⟩) 100
    |> smooth.perform () (.feedDidLoad 1) 100
    |> smooth.perform () (.feedCell 1 0 0) 100
    |> smooth.perform () (.tapRemove 1 0) 100

/-- He confirms it; the deletion is on its way. -/
def removing : World village Unit := smooth.perform () (.answerAlert 0 true) 5 strangersPost

/-- And the post is gone. -/
def removed : World village Unit := (step removing (.commit () none)).getD removing

theorem removing_reached : Run (fun _ _ => True) emptyWorld removing := by
  unfold removing strangersPost
  iterate 6 refine Policy.run_perform (fun _ _ _ => trivial) trivial ?_
  exact ownPost_reached.mono fun _ _ _ => trivial

/-- Bob, signed in with his own profile cached, deletes Alice's post. -/
theorem stranger_removes_post : ∃ w w' : World village Unit, ∃ e p data t,
    Run (fun _ _ => True) emptyWorld w ∧ step w e = some w' ∧
      w.server.docs.get ⟨.posts, p⟩ = some data ∧ w'.server.docs.get ⟨.posts, p⟩ = none ∧
      w'.log = ⟨(), t, .wrote (.delete ⟨.posts, p⟩) none⟩ :: w.log ∧
      t.actor ≠ some (Dictionary.string data "ownerUid") := by
  refine ⟨removing, removed, .commit () none, "n3", _, _, removing_reached, rfl, rfl, rfl, rfl, ?_⟩
  decide

end DogVillage
