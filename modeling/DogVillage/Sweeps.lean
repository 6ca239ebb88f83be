import DogVillage.Records

/-!
# What a deleted account takes along

The deletion of an account attaches a listener to the account's posts, and
the listener deletes every post it is shown. Whenever it is shown the posts
and what this sets off goes through, all the posts of the account that were
there are gone, for good: also those uploaded after the deletion, and
whatever else goes on meanwhile.
-/

namespace DogVillage

open Async

/-! ## The listener -/

/-- The post is still to be deleted. -/
def sweeping (p : DocId) : Debt sig where
  write wr := wr = .delete ⟨.posts, p⟩

/-- The listener of a deletion is told the account's posts, and deletes each. -/
def Sweeping (t : Call) : (q : Ask) → (q.Ans → Block) → Prop
  | .getDocuments q, h => (∀ u, t.actor = some u → q = postsQuery u) ∧
      ∀ documents : List (DocId × Dictionary), ∀ x ∈ documents,
        (sweeping x.1).Owes (h (some documents))
  | _, _ => False

variable {D : Type}

/-- Deletions listen to nothing else. -/
def sweeps : Spec village D Unit where
  view _ _ := ()
  rely _ _ _ _ := True
  loc _ _ _ := True
  sees _ _ _ := True
  write _ _ _ _ _ := True
  ask _ _ _ _ _ := True
  listen _ _ t q h := Call.op t = .delete → Sweeping t q h
  answer _ _ _ _ _ := True
  env _ _ _ _ := True
  rely_refl _ _ _ := trivial
  rely_trans _ _ _ _ _ _ _ := trivial
  loc_stable _ _ _ _ _ _ _ := trivial
  write_stable _ _ _ _ _ _ _ _ := trivial
  ask_stable _ _ _ _ _ _ _ _ := trivial
  listen_stable _ _ _ _ _ _ _ h := h

section

variable {d : D} {t : Call} {u : Uid}

theorem sweeping_deletion (ht : t.actor = some u) :
    Sweeping t (.getDocuments (postsQuery u)) fun snapshot =>
      match snapshot with
      | none => .done
      | some documents =>
          .forEach documents fun document =>
            .write (.delete ⟨.posts, document.1⟩) (fun _ => .done) .done := by
  refine ⟨fun v hv => ?_, fun documents x hx => ?_⟩
  · rw [ht] at hv
    cases hv
    rfl
  · exact Debt.Owes.forEach hx (Or.inl rfl) fun _ _ => trivial

theorem sweeps_other (ht : t.op ≠ .delete) {C : Collection → Prop} {c : Block}
    (htouches : Touches C c) : sweeps.Ok d t c () := by
  have hunder : c.Under (fun _ => True) (fun _ _ => True) fun _ => True :=
    htouches.under (fun _ _ => ⟨trivial, fun _ => trivial⟩) (fun _ _ => trivial)
      (fun _ => trivial) (fun _ => trivial) fun _ => trivial
  exact Spec.Ok.of_under (fun _ _ _ _ => trivial) (fun _ _ _ _ => trivial)
    (fun _ _ _ _ => trivial) (fun _ _ _ => trivial) (fun _ _ _ h => absurd h ht)
    (fun _ _ => ⟨fun _ _ _ => trivial, fun _ _ => trivial⟩) hunder

theorem sweeps_deletion (ht : t.actor = some u) : sweeps.Ok d t (deleteWrites u) () := by
  have hauth : sweeps.Ok d t (Auth.delete fun _ => .done) () := by
    intro _ _ app _ _
    cases hu : App.currentUser app with
    | none => simp only [hu]; trivial
    | some uid =>
        simp only [hu]
        refine ⟨trivial, fun _ _ (error : Option FIRError) _ => ?_, trivial⟩
        cases error with
        | none => exact ⟨fun _ _ _ _ => trivial, fun _ _ => trivial, trivial⟩
        | some _ => trivial
  refine Spec.Ok.andThen hauth ⟨trivial, fun _ _ error => ?_, fun _ _ _ => trivial⟩
  cases error with
  | some _ => trivial
  | none =>
      refine ⟨fun _ => sweeping_deletion ht, fun _ _ snapshot _ => ?_, trivial⟩
      cases snapshot with
      | none => trivial
      | some documents =>
          exact Spec.Ok.forEach fun _ _ => ⟨trivial, fun _ _ _ => trivial, fun _ _ _ => trivial⟩

theorem sweeps_action (a : Action) (app : App) :
    sweeps.Ok d ⟨app.currentUser, a.op app⟩ (a.block.start app) () := by
  by_cases ht : a.op app = .delete
  · have hs := a.starts app
    rw [ht] at hs
    cases hs with
    | delete =>
        have htap := deleteTap app
        generalize Action.deleteAccount.block.start app = c at htap ⊢
        cases htap with
        | none => exact ⟨fun _ _ _ _ => trivial, fun _ _ => trivial, fun _ _ _ _ => trivial,
            fun _ _ => trivial, trivial⟩
        | delete huid =>
            exact ⟨fun _ _ _ _ => trivial, fun _ _ => trivial, sweeps_deletion huid,
              fun _ _ _ _ => trivial, fun _ _ => trivial, trivial⟩
  · exact sweeps_other ht (touches_action a app)

end

section

variable [DecidableEq D] {w w₁ w₂ w' : World village D} {e : Event village D}
  {ok ok' : World village D → Event village D → Prop} {u : Uid} {p : DocId}

theorem sweeps_of_run (hrun : Run ok emptyWorld w) : sweeps.Inv w := by
  refine hrun.inv sweeps.Inv ?_ fun w e w' h _ hs => ?_
  · exact
      { loc := fun _ => trivial
        held := fun _ => by constructor <;> simp [emptyWorld, Device.jobs] }
  · exact h.step hs (fun _ _ _ => trivial) (fun _ _ _ => trivial) (fun d a _ => sweeps_action a _)
      (fun _ _ _ => trivial) (fun _ _ _ _ => trivial) (fun _ _ _ _ => trivial)
      fun _ _ _ _ _ _ => trivial

/-- What is still to be deleted, or has been. -/
theorem sweeping_step (hs : Stepped w e w') (hok : NoFailure w e) {d : D} {t : Call}
    (h : (sweeping p).OwedBy (w.devices d) t ∨ Removed w.log p) :
    (sweeping p).OwedBy (w'.devices d) t ∨ Removed w'.log p := by
  rcases h with howed | hgone
  · rcases howed.step hs trivial (fun _ _ _ _ _ => trivial) fun _ _ _ _ => trivial with
      howed | hpaid
    · exact Or.inl howed
    · refine Or.inr ?_
      cases hpaid with
      | answer _ _ hb => exact hb.elim
      | @commit fail m ms hw _ hb =>
          obtain rfl : fail = none := hok
          obtain ⟨t, wr, h⟩ := m
          obtain rfl : wr = .delete ⟨.posts, p⟩ := hb
          cases hs with
          | commit hw' =>
              rw [hw] at hw'
              cases hw'
              exact ⟨_, List.mem_cons_self, rfl⟩
  · exact Or.inr (hgone.mono hs.log)

/-- The listener of a deleted account is shown the posts. Once everything
this sets off on its device has gone through, none of the account's posts
that were there is stored, nor will it ever be again. -/
theorem deletion_sweeps (hrun : Run ok emptyWorld w₁) {d : D} {i : Nat} {m : Asked village}
    (hlistens : (w₁.devices d).listeners[i]? = some m) (htag : m.tag = ⟨some u, .delete⟩)
    (hshown : step w₁ (.notify d i .ok) = some w₂) (hrun' : Run NoFailure w₂ w)
    (hidle : (w.devices d).idle = true) (howns : w₁.server.owns u p) (hlater : Run ok' w w') :
    w'.server.docs.get ⟨.posts, p⟩ = none := by
  have hall : ∀ {ok : World village D → Event village D → Prop} {w₀ w}, Run ok w₀ w →
      Run (fun _ _ => True) w₀ w := fun h => h.mono fun _ _ _ => trivial
  have howed : (sweeping p).OwedBy (w₂.devices d) m.tag := by
    have hlisten : Sweeping m.tag m.q m.handler :=
      (((sweeps_of_run hrun).held d).listeners m (List.mem_of_getElem? hlistens)).1 (by rw [htag])
    cases stepped_of_step hshown with
    | @notify _ _ _ m' a srv hi hserve =>
        obtain rfl : m = m' := Option.some.inj (hlistens.symm.trans hi)
        obtain ⟨t, q, h⟩ := m
        obtain rfl : t = ⟨some u, .delete⟩ := htag
        cases q with
        | getDocuments q =>
            obtain ⟨hq, howes⟩ := hlisten
            obtain rfl := hq u rfl
            obtain ⟨data, hget, howner⟩ := howns
            have hmem : (p, data) ∈ w₁.server.docs.select (postsQuery u) :=
              Documents.mem_select.mpr ⟨hget, by simp [Query.selects, howner]⟩
            cases hserve
            rw [World.put_device]
            exact Or.inl ⟨_, Device.mem_jobs_arrive.mpr (Or.inl rfl), rfl, howes _ _ hmem⟩
        | _ => exact hlisten.elim
  have hgone : Removed w.log p := by
    have hstays : (sweeping p).OwedBy (w.devices d) m.tag ∨ Removed w.log p :=
      hrun'.inv (fun w => (sweeping p).OwedBy (w.devices d) m.tag ∨ Removed w.log p)
        (Or.inl howed) fun _ _ _ h hok hs => sweeping_step hs hok h
    exact hstays.resolve_left (Debt.not_owedBy_of_idle hidle _)
  have hwhole : Run (fun _ _ => True) emptyWorld w :=
    (Run.step (hall hrun) trivial hshown).trans (hall hrun')
  exact absent_of_removed (hwhole.trans (hall hlater)) (hgone.mono hlater.log)

end

theorem deletion_sweeps_aliceSwept : aliceSwept.server.docs.get ⟨.posts, "n3"⟩ = none := by
  have hlistens : (aliceDeleting.devices ()).listeners[0]? =
      some ((aliceDeleting.devices ()).listeners.get ⟨0, by decide⟩) := rfl
  have hlater : Run NoFailure aliceSwept aliceSwept := .refl
  exact deletion_sweeps aliceDeleting_noFailure hlistens rfl step_aliceDeleting aliceShown_swept
    (by decide) ⟨_, rfl, by decide⟩ hlater

example : (aliceDeleting.server.docs.get ⟨.posts, "n3"⟩).isSome = true := by decide

end DogVillage
