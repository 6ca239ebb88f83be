import DogVillage.Controllers
import DogVillage.Async.Drive

/-!
# The app on many devices

`village` is the whole system: any number of devices running the app over
one Firebase project. What the user does is an `Action`; the `Call` it is
tagged with says which operation it starts and for which account.
-/

namespace DogVillage

open Async

/-- What the user does, and what UIKit does on the user's behalf (a screen
is loaded, a cell is bound). Screens, cells and alerts are named by their
index. -/
inductive Action
  | tabDidLoad
  | didFinishPicking (selectedImage : UIImage)
  | feedDidLoad (i : Nat)
  | feedWillAppear (i : Nat)
  | feedRefresh (i : Nat)
  | feedCell (i row c : Nat)
  | tapLike (i c : Nat)
  | tapComment (i c : Nat)
  | tapUser (i c : Nat)
  | tapRemove (i c : Nat)
  | answerAlert (k : Nat) (yes : Bool)
  | logout
  | profileDidLoad (i : Nat)
  | profileWillAppear (i : Nat)
  | profileHeader (i : Nat)
  | tapActionButton (i : Nat)
  | profileSelect (i row : Nat)
  | notificationDidLoad (i : Nat)
  | notificationRefresh (i : Nat)
  | notificationCell (i row c : Nat)
  | tapFollow (i c : Nat)
  | tapPost (i c : Nat)
  | notificationSelect (i row : Nat)
  | searchDidLoad (i : Nat)
  | searchSelectUser (i row : Nat)
  | searchSelectPost (i row : Nat)
  | sendComment (i : Nat) (comment : String)
  | tapDone (i : Nat) (caption : String)
  | login (email password : String)
  | signUp (email password fullname username : String) (profileImage : UIImage)
  | resetPassword (email : String)
  | editProfile (username fullname : String) (profileImage : UIImage)
  | deleteAccount
deriving DecidableEq, Repr

/-- The operation an action starts, with what it is called with: a like
captures the cell's copy of the post. -/
inductive Op
  | like (post : Post)
  | unlike (post : Post)
  | follow (uid : Uid)
  | unfollow (uid : Uid)
  | upload
  | comment (p : DocId)
  | remove (p : DocId)
  | register
  | delete
  | other
deriving DecidableEq, Repr

/-- One operation: who is signed in when it starts, and what it is. -/
structure Call where
  actor : Option Uid
  op : Op
deriving DecidableEq, Repr

namespace Action

def block : Action → Block
  | tabDidLoad => MainTabController.viewDidLoad
  | didFinishPicking image => MainTabController.didFinishPicking image
  | feedDidLoad i => FeedController.viewDidLoad i
  | feedWillAppear i => FeedController.viewWillAppear i
  | feedRefresh i => FeedController.handleRefresh i
  | feedCell i row c => FeedController.cellForItemAt i row c
  | tapLike i c => FeedController.didTapLike i c
  | tapComment i c => FeedController.didTapComment i c
  | tapUser i c => FeedController.showUserProfile i c
  | tapRemove i c => FeedController.didTapRemove i c
  | answerAlert k yes => FeedController.answerAlert k yes
  | logout => FeedController.handleLogout
  | profileDidLoad i => ProfileController.viewDidLoad i
  | profileWillAppear i => ProfileController.viewWillAppear i
  | profileHeader i => ProfileController.viewForSupplementaryElement i
  | tapActionButton i => ProfileController.handleEditProfileFollowTapped i
  | profileSelect i row => ProfileController.didSelectItemAt i row
  | notificationDidLoad i => NotificationController.viewDidLoad i
  | notificationRefresh i => NotificationController.handleRefresh i
  | notificationCell i row c => NotificationController.cellForRowAt i row c
  | tapFollow i c => NotificationController.handleFollowTapped i c
  | tapPost i c => NotificationController.handlePostTapped i c
  | notificationSelect i row => NotificationController.didSelectRowAt i row
  | searchDidLoad i => SearchController.viewDidLoad i
  | searchSelectUser i row => SearchController.didSelectRowAt i row
  | searchSelectPost i row => SearchController.didSelectItemAt i row
  | sendComment i comment => CommentController.inputView i comment
  | tapDone i caption => UploadPostController.didTapDone i caption
  | login email password => LoginController.handleLogin email password
  | signUp email password fullname username image =>
      RegisterationController.handleSignUp email password fullname username image
  | resetPassword email => ResetPasswordController.handleResetPassword email
  | editProfile username fullname image => ResetInfomation.handleSignUp username fullname image
  | deleteAccount => EditProfileContrller.yesAction

/-- The post shown by cell `c` of feed `i`. -/
def shownPost (app : App) (i c : Nat) : Option Post :=
  app.feeds[i]?.bind (·.cells c)

def op (a : Action) (app : App) : Op :=
  match a with
  | tapLike i c =>
      match shownPost app i c, app.user with
      | some post, some _ => if post.didLike then .unlike post else .like post
      | _, _ => .other
  | answerAlert k true =>
      match app.alerts[k]? with
      | some (post, _) => .remove post.postId
      | none => .other
  | tapActionButton i =>
      match app.profiles[i]?.bind (·.header), app.user with
      | some user, some _ =>
          if app.currentUser == some user.uid then .other
          else if user.isFollowed then .unfollow user.uid else .follow user.uid
      | _, _ => .other
  | tapFollow i c =>
      match app.notifications[i]?.bind (·.cells c) with
      | some n => if n.userIsFollowed then .unfollow n.uid else .follow n.uid
      | none => .other
  | sendComment i _ =>
      match app.comments[i]?, app.user with
      | some screen, some _ => .comment screen.post.postId
      | _, _ => .other
  | tapDone i _ =>
      match app.uploads[i]? with
      | some ⟨some _, some _⟩ => .upload
      | _ => .other
  | signUp .. => .register
  | deleteAccount => .delete
  | _ => .other

/-- The operations an action may start. -/
inductive Starts (app : App) : Action → Op → Prop
  | like {i c post} (h : shownPost app i c = some post) : Starts app (tapLike i c) (.like post)
  | unlike {i c post} (h : shownPost app i c = some post) :
      Starts app (tapLike i c) (.unlike post)
  | remove {k post user} (h : app.alerts[k]? = some (post, user)) :
      Starts app (answerAlert k true) (.remove post.postId)
  | follow {i uid} : Starts app (tapActionButton i) (.follow uid)
  | unfollow {i uid} : Starts app (tapActionButton i) (.unfollow uid)
  | followBack {i c uid} : Starts app (tapFollow i c) (.follow uid)
  | unfollowBack {i c uid} : Starts app (tapFollow i c) (.unfollow uid)
  | comment {i comment p} : Starts app (sendComment i comment) (.comment p)
  | upload {i caption} : Starts app (tapDone i caption) .upload
  | register {email password fullname username image} :
      Starts app (signUp email password fullname username image) .register
  | delete : Starts app deleteAccount .delete
  | other {a} : Starts app a .other

theorem starts (a : Action) (app : App) : Starts app a (a.op app) := by
  cases a with
  | tapLike i c =>
      simp only [op]
      split
      · next post _ hp _ => split <;> [exact .unlike hp; exact .like hp]
      · exact .other
  | answerAlert k yes =>
      cases yes with
      | false => exact .other
      | true =>
          simp only [op]
          split
          · next hk => exact .remove hk
          · exact .other
  | tapActionButton i =>
      simp only [op]
      split
      · split
        · exact .other
        · split <;> [exact .unfollow; exact .follow]
      · exact .other
  | tapFollow i c =>
      simp only [op]
      split
      · split <;> [exact .unfollowBack; exact .followBack]
      · exact .other
  | sendComment i comment => simp only [op]; split <;> [exact .comment; exact .other]
  | tapDone i caption => simp only [op]; split <;> [exact .upload; exact .other]
  | signUp => exact .register
  | deleteAccount => exact .delete
  | _ => exact .other

end Action

def village : System sig where
  Srv := Server
  Tag := Call
  Action := Action
  Choice := Server.Choice
  apply := Server.apply
  serve := Server.serve
  supply := Server.supply
  ui a app := (⟨app.currentUser, a.op app⟩, a.block)

/-- Nothing stored, nobody signed in, no screen loaded. -/
def emptyWorld {D : Type} : World village D where
  server := {}
  devices _ := { loc := {} }

theorem not_active_emptyWorld {D : Type} {d : D} {t : Call} :
    ¬ (emptyWorld : World village D).Active d t := by
  intro h
  rcases Device.mem_tags.mp h with ⟨_, h, -⟩ | ⟨_, h, -⟩ | ⟨_, h, -⟩ | ⟨_, h, -⟩ <;> cases h

/-- The next of some names, none of them handed out twice. -/
def Server.nextName (srv : Server) : String :=
  ["n0", "n1", "n2", "n3", "n4", "n5", "n6", "n7", "n8", "n9", "n10", "n11", "n12", "n13", "n14",
    "n15"].getD srv.used.length ""

/-- Surroundings in which everything succeeds. -/
def smooth : Policy village where
  env srv := ⟨Server.nextName srv, ⟨(Server.used srv).length, 0⟩⟩
  choice
    | .downloadURL path, _ => .url path
    | .createUser _ _, srv => .uid (Server.nextName srv)
    | _, _ => .ok

theorem smooth_commit {D : Type} {w : World village D} {d d' : D} {fail : Option FIRError}
    (h : smooth.pick d w = some (.commit d' fail)) : fail = none := by
  simp only [Policy.pick] at h
  split at h <;> cases h
  rfl

/-- Alice has signed up and uploaded a post, and her feed shows it. -/
def ownPost : World village Unit :=
  emptyWorld
    |> smooth.perform () (.signUp "alice@dog.kr" "secret" "Alice" "alice" ⟨some []⟩) 100
    |> smooth.perform () (.didFinishPicking ⟨some []⟩) 100
    |> smooth.perform () (.tapDone 0 "walk") 100
    |> smooth.perform () (.feedDidLoad 0) 100
    |> smooth.perform () (.feedCell 0 0 0) 100

/-- No alert to remove a post is confirmed. -/
def NoRemoval {D : Type} (_ : World village D) (e : Event village D) : Prop :=
  ∀ d k, e ≠ .act d (Action.answerAlert k true)

theorem noRemoval_of_pick {D : Type} {p : Policy village} {d : D} {w : World village D}
    {e : Event village D} (h : p.pick d w = some e) : NoRemoval w e := by
  rintro d' k rfl
  obtain ⟨rfl, ha, -⟩ := Policy.pick_own h
  exact ha _ rfl

theorem ownPost_reached : Run NoRemoval emptyWorld ownPost := by
  unfold ownPost
  iterate 5
    refine Policy.run_perform (fun _ _ h => noRemoval_of_pick h) (fun _ _ h => by cases h) ?_
  exact .refl

/-! ## What a step does to the server -/

/-- Is the document there? -/
def Server.present (srv : Server) (r : Ref Collection) : Bool := (srv.docs.get r).isSome

theorem Server.present_congr {srv srv' : Server} {r : Ref Collection}
    (h : srv.docs.get r = srv'.docs.get r) : srv.present r = srv'.present r :=
  congrArg Option.isSome h

/-- A write that is refused changes nothing, one that is carried out only
its own document. -/
theorem docs_settle {wr : Write} {fail : Option FIRError} {srv : Server} {r : Ref Collection}
    (h : (settle village wr fail srv).2 = none → wr.ref ≠ r) :
    (settle village wr fail srv).1.docs.get r = srv.docs.get r := by
  cases fail with
  | some e => rfl
  | none =>
      simp only [settle, village, Server.apply] at h ⊢
      cases ha : Documents.apply wr srv.docs with
      | none => rfl
      | some docs =>
          simp only [ha, forall_const] at h ⊢
          rw [Documents.get_apply ha, if_neg (Ne.symm h)]

theorem docs_refused {wr : Write} {fail : Option FIRError} {srv : Server} {err : FIRError}
    (h : (settle village wr fail srv).2 = some err) :
    (settle village wr fail srv).1.docs = srv.docs := by
  cases fail with
  | some e => rfl
  | none =>
      simp only [settle, village, Server.apply] at h ⊢
      cases ha : Documents.apply wr srv.docs with
      | none => rfl
      | some docs => rw [ha] at h; cases h

theorem docs_accepted {wr : Write} {fail : Option FIRError} {srv : Server}
    (h : (settle village wr fail srv).2 = none) :
    fail = none ∧ ∃ docs, Documents.apply wr srv.docs = some docs ∧
      (settle village wr fail srv).1 = { srv with docs := docs } := by
  cases fail with
  | some e => cases h
  | none =>
      refine ⟨rfl, ?_⟩
      simp only [settle, village, Server.apply] at h ⊢
      cases ha : Documents.apply wr srv.docs with
      | none => rw [ha] at h; cases h
      | some docs => exact ⟨docs, rfl, rfl⟩

theorem accounts_settle {wr : Write} {fail : Option FIRError} {srv : Server} :
    (settle village wr fail srv).1.accounts = srv.accounts := by
  cases fail with
  | some e => rfl
  | none => simp only [settle, village, Server.apply]; cases Documents.apply wr srv.docs <;> rfl

theorem used_settle {wr : Write} {fail : Option FIRError} {srv : Server} :
    srv.used ⊆ (settle village wr fail srv).1.used := by
  cases fail with
  | some e => exact List.Subset.refl _
  | none =>
      simp only [settle, village, Server.apply]
      cases Documents.apply wr srv.docs <;> exact List.Subset.refl _

theorem used_serve {q : Ask} {c : Server.Choice} {srv srv' : Server} {a : q.Ans}
    (h : Server.serve q c srv = some (a, srv')) : srv.used ⊆ srv'.used := by
  unfold Server.serve at h
  split at h <;> grind

theorem used_supply {e : Env} {srv srv' : Server} (h : Server.supply e srv = some srv') :
    srv.used ⊆ srv'.used := by
  unfold Server.supply at h
  split at h
  · cases h
  · cases h; exact List.subset_cons_self _ _

theorem accounts_supply {e : Env} {srv srv' : Server} (h : Server.supply e srv = some srv') :
    srv'.accounts = srv.accounts := by
  unfold Server.supply at h
  split at h
  · cases h
  · cases h; rfl

theorem docs_serve {q : Ask} {c : Server.Choice} {srv srv' : Server} {a : q.Ans}
    (h : Server.serve q c srv = some (a, srv')) : srv'.docs = srv.docs := by
  unfold Server.serve at h
  split at h <;> grind

theorem docs_supply {e : Env} {srv srv' : Server} (h : Server.supply e srv = some srv') :
    srv'.docs = srv.docs := by
  unfold Server.supply at h
  split at h
  · cases h
  · cases h; rfl

theorem docs_exec {t : Call} {v : Env} {srv : Server} {dev : Device village} {c : Block}
    {r : Turn village} (h : exec t v srv dev c = some r) :
    r.server.docs = srv.docs := by
  cases c with
  | done => cases h
  | env k =>
      obtain ⟨srv', hs, rfl⟩ := Option.map_eq_some_iff.mp h
      exact docs_supply hs
  | _ => cases h; rfl

section

variable {D : Type} [DecidableEq D] {w w' : World village D} {e : Event village D}

/-- A step leaves the documents alone, or is the commit of a write. -/
inductive DocsStep (w w' : World village D) (e : Event village D) : Prop
  | same (h : w'.server.docs = w.server.docs)
      (hlog : ∀ x ∈ w'.log, ∀ wr, x.obs = .wrote wr none → x ∈ w.log)
  | wrote {d m ms} (he : e = .commit d none) (hw : (w.devices d).writes = m :: ms)
      (hlog : w'.log = ⟨d, m.tag, .wrote m.write none⟩ :: w.log)
      (hget : ∀ r, w'.server.docs.get r =
        if r = m.write.ref then Documents.written m.write (w.server.docs.get r)
        else w.server.docs.get r)

theorem docsStep (hs : Stepped w e w') : DocsStep w w' e := by
  -- only a commit that is carried out logs an accepted write
  have other : (∀ d fail, e ≠ .commit d fail) →
      ∀ x ∈ w'.log, ∀ wr, x.obs = .wrote wr none → x ∈ w.log := fun hne x hx wr hobs => by
    rcases wrote_of_step hs hx hobs with hx | ⟨fail, m, ms, he, -⟩
    · exact hx
    · exact absurd he (hne _ _)
  cases hs with
  | @commit d fail m ms hw =>
      cases hr : (settle village m.write fail w.server).2 with
      | some err =>
          refine .same ?_ fun x hx wr hobs => ?_
          · exact docs_refused hr
          · rcases List.mem_cons.mp hx with rfl | hx
            · cases hobs
            · exact hx
      | none =>
          obtain ⟨rfl, docs, ha, hset⟩ := docs_accepted hr
          refine .wrote rfl hw rfl fun r => ?_
          rw [hset]
          exact Documents.get_apply ha r
  | act => exact .same rfl (other (by simp))
  | next => exact .same rfl (other (by simp))
  | finish => exact .same rfl (other (by simp))
  | run htake hexec => exact .same (docs_exec hexec) (other (by simp))
  | answer hi hv => exact .same (docs_serve hv) (other (by simp))
  | notify hi hv => exact .same (docs_serve hv) (other (by simp))

/-- A step leaves a document where it is, or is the write that puts it in
place or takes it away. -/
inductive PresentStep (w w' : World village D) (e : Event village D) (r : Ref Collection) : Prop
  | same (h : w'.server.present r = w.server.present r)
      (hlog : ∀ x ∈ w'.log, ∀ (wr : Write) b, x.obs = .wrote wr none → wr.puts = some (r, b) →
        x ∈ w.log)
  | put {d b} {m : Sent village} {ms} (he : e = .commit d none)
      (hw : (w.devices d).writes = m :: ms) (hputs : DocWrite.puts m.write = some (r, b))
      (hlog : w'.log = ⟨d, m.tag, .wrote m.write none⟩ :: w.log) (h : w'.server.present r = b)

theorem presentStep (hs : Stepped w e w') (r : Ref Collection) : PresentStep w w' e r := by
  cases docsStep hs with
  | same hdocs hlog =>
      exact .same (Server.present_congr (by rw [hdocs])) fun x hx wr _ ho _ => hlog x hx wr ho
  | @wrote d m ms he hw hlog hget =>
      have hget := hget r
      have other : (∀ b, DocWrite.puts m.write ≠ some (r, b)) →
          w'.server.present r = w.server.present r → PresentStep w w' e r := by
        refine fun hne h => .same h fun x hx wr b ho hp => ?_
        rw [hlog] at hx
        rcases List.mem_cons.mp hx with rfl | hx
        · cases (Obs.wrote.inj ho).1
          exact absurd hp (hne b)
        · exact hx
      by_cases hr : r = DocWrite.ref m.write
      · rw [if_pos hr] at hget
        cases hwr : m.write with
        | setData r' data =>
            rw [hwr] at hget hr
            exact .put he hw (by rw [hwr, hr]; rfl) hlog (congrArg Option.isSome hget)
        | updateData r' data =>
            rw [hwr] at hget
            refine other (fun b hb => by rw [hwr] at hb; cases hb) ?_
            have h : w'.server.present r = (Option.map (data ++ ·) (w.server.docs.get r)).isSome :=
              congrArg Option.isSome hget
            rw [h, Option.isSome_map]
            rfl
        | delete r' =>
            rw [hwr] at hget hr
            exact .put he hw (by rw [hwr, hr]; rfl) hlog (congrArg Option.isSome hget)
      · rw [if_neg hr] at hget
        refine other (fun b hb => hr ?_) (Server.present_congr hget)
        cases hwr : m.write <;> rw [hwr] at hb <;> cases hb <;> rfl

/-- The answer to a registration or a deletion that was carried out. -/
def changesAccounts : Obs sig → Bool
  | .answered (.createUser _ _) (.ok _) => true
  | .answered (.deleteAccount _) none => true
  | _ => false

theorem changesAccounts_own {o : Obs sig} (h : o.isOwn = true) : changesAccounts o = false := by
  cases o <;> first | rfl | cases h

/-- A step leaves the accounts alone, or is such an answer. -/
inductive AccountsStep (w w' : World village D) : Prop
  | same (h : w'.server.accounts = w.server.accounts)
      (hlog : ∀ x ∈ w'.log, changesAccounts x.obs = true → x ∈ w.log)
  | created {d t email password uid}
      (hlog : w'.log = ⟨d, t, .answered (.createUser email password) (.ok uid)⟩ :: w.log)
      (hnew : uid ∉ w.server.used) (hused : w'.server.used = uid :: w.server.used)
      (h : w'.server.accounts = ⟨uid, email, password⟩ :: w.server.accounts)
  | deleted {d t uid} (hlog : w'.log = ⟨d, t, .answered (.deleteAccount uid) none⟩ :: w.log)
      (hex : ∃ a ∈ w.server.accounts, a.uid = uid)
      (h : w'.server.accounts = w.server.accounts.filter (·.uid != uid))

/-- What an answer does to the accounts. -/
inductive AccountsServed (srv srv' : Server) : (q : Ask) → q.Ans → Prop
  | same {q a} (h : srv'.accounts = srv.accounts)
      (ho : changesAccounts (.answered q a) = false) : AccountsServed srv srv' q a
  | created {email password uid} (hnew : uid ∉ srv.used) (hused : srv'.used = uid :: srv.used)
      (h : srv'.accounts = ⟨uid, email, password⟩ :: srv.accounts) :
      AccountsServed srv srv' (.createUser email password) (.ok uid)
  | deleted {uid} (hex : ∃ a ∈ srv.accounts, a.uid = uid)
      (h : srv'.accounts = srv.accounts.filter (·.uid != uid)) :
      AccountsServed srv srv' (.deleteAccount uid) none

theorem accountsServed {q : Ask} {c : Server.Choice} {srv srv' : Server} {a : q.Ans}
    (h : Server.serve q c srv = some (a, srv')) : AccountsServed srv srv' q a := by
  unfold Server.serve at h
  split at h
  case h_9 =>
    split at h
    · cases h; exact .same rfl rfl
    · split at h
      · cases h
      · next hnew => cases h; exact .created hnew rfl rfl
  case h_11 => split at h <;> cases h <;> exact .same rfl rfl
  case h_15 =>
    split at h
    · next hex =>
        cases h
        refine .deleted ?_ rfl
        simpa using hex
    · cases h; exact .same rfl rfl
  all_goals cases h
  all_goals exact .same rfl rfl

omit [DecidableEq D] in
theorem answers_served {d : D} {t : Call} {q : Ask} {a : q.Ans} {srv : Server}
    (h : e.Answers w d t q a srv) : AccountsServed w.server srv q a := by
  cases h with
  | answer _ hv => exact accountsServed hv
  | notify _ hv => exact accountsServed hv

omit [DecidableEq D] in
theorem answers_docs {d : D} {t : Call} {q : Ask} {a : q.Ans} {srv : Server}
    (h : e.Answers w d t q a srv) : srv.docs = w.server.docs :=
  docs_serve h.serve.choose_spec

omit [DecidableEq D] in
/-- A document that is read is the one stored. -/
theorem answers_read {d : D} {t : Call} {r : Ref Collection} {a : Option Dictionary}
    {srv : Server} (h : e.Answers w d t (Ask.getDocument r) (some a) srv) :
    w.server.docs.get r = a := by
  obtain ⟨c, hv⟩ := h.serve
  cases c <;> cases hv
  rfl

theorem accounts_exec {t : Call} {v : Env} {srv : Server} {dev : Device village} {c : Block}
    {r : Turn village} (h : exec t v srv dev c = some r) :
    r.server.accounts = srv.accounts := by
  cases c with
  | done => cases h
  | env k =>
      obtain ⟨srv', hs, rfl⟩ := Option.map_eq_some_iff.mp h
      exact accounts_supply hs
  | _ => cases h; rfl

theorem accountsStep (hs : Stepped w e w') : AccountsStep w w' := by
  have served : ∀ {d t q a}, w'.log = ⟨d, t, .answered q a⟩ :: w.log →
      AccountsServed w.server w'.server q a → AccountsStep w w' := by
    intro d t q a hlog h
    cases h with
    | same h ho =>
        refine .same h fun x hx hc => ?_
        rw [hlog] at hx
        rcases List.mem_cons.mp hx with rfl | hx
        · rw [ho] at hc; cases hc
        · exact hx
    | created hnew hused h => exact .created hlog hnew hused h
    | deleted hex h => exact .deleted hlog hex h
  have other : (∀ d t q a, ¬ e.Answers w d t q a w'.server) →
      ∀ x ∈ w'.log, changesAccounts x.obs = true → x ∈ w.log := by
    intro hans x hx hc
    cases hs.logs with
    | acted _ hlog | wrote _ _ hlog =>
        rw [hlog] at hx
        rcases List.mem_cons.mp hx with rfl | hx
        · cases hc
        · exact hx
    | answered h _ => exact absurd h (hans _ _ _ _)
    | own hlog hl =>
        rw [hlog] at hx
        rcases List.mem_append.mp hx with hx | hx
        · rw [changesAccounts_own (hl x hx)] at hc; cases hc
        · exact hx
  cases hs with
  | run htake hexec => exact .same (accounts_exec hexec) (other fun _ _ _ _ h => by cases h)
  | commit hw => exact .same accounts_settle (other fun _ _ _ _ h => by cases h)
  | answer hi hv => exact served rfl (answers_served (.answer hi hv))
  | notify hi hv => exact served rfl (answers_served (.notify hi hv))
  | _ => exact .same rfl (other fun _ _ _ _ h => by cases h)

/-- Names handed out stay handed out. -/
theorem used_step (hs : Stepped w e w') : w.server.used ⊆ w'.server.used := by
  cases hs with
  | @run d s v t c dev r htake hexec =>
      cases c with
      | done => cases hexec
      | env k =>
          obtain ⟨srv', hs, rfl⟩ := Option.map_eq_some_iff.mp hexec
          exact used_supply hs
      | _ => cases hexec; exact List.Subset.refl _
  | commit hw => exact used_settle
  | answer hi hv => exact used_serve hv
  | notify hi hv => exact used_serve hv
  | _ => exact List.Subset.refl _

end

end DogVillage
