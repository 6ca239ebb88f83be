import DogVillage.Accounts
import DogVillage.Footprint
import DogVillage.Frames

/-!
# Whose name an item carries

A post, a comment and a notification carry the name and the image of their
author, copied from the user the device keeps. On a device that only one
account signs in to, and as long as the answers say so, whatever is written
carries that account's name: `Own` is any property of users that the
answers to its sign-in establish.
-/

namespace DogVillage

open Async

/-- An author, with the name and the image an item carries. -/
structure Byline where
  uid : Uid
  username : String
  profileImageUrl : String
deriving DecidableEq, Repr

def User.byline (user : User) : Byline := ⟨user.uid, user.username, user.profileImageUrl⟩

/-- The byline of a stored post, comment or notification. -/
def byline : Collection → Dictionary → Option Byline
  | .posts, data => some
      ⟨data.string "ownerUid", data.string "ownerUsername", data.string "ownerImageUrl"⟩
  | .comments _, data => some
      ⟨data.string "uid", data.string "username", data.string "profileImageUrl"⟩
  | .userNotifications _, data => some
      ⟨data.string "uid", data.string "username", data.string "userProfileImageUrl"⟩
  | _, _ => none

/-- Whatever user the memory keeps is of the account. -/
structure OwnApp (uid : Uid) (Own : User → Prop) (app : App) : Prop where
  currentUser : ∀ v, app.currentUser = some v → v = uid
  user : ∀ user, app.user = some user → Own user
  uploads : ∀ screen ∈ app.uploads, ∀ user, screen.currentUser = some user → Own user

/-- Only the account signs in, and its document gives such a user. -/
def OwnAnswer (uid : Uid) (Own : User → Prop) : (q : Ask) → q.Ans → Prop
  | .createUser _ _, a => ∀ v, a = .ok v → v = uid
  | .signIn _ _, a => ∀ v, a = .ok v → v = uid
  | .getDocument r, a => ∀ data, r = ⟨.users, uid⟩ → a = some (some data) → Own (User.init data)
  | _, _ => True

/-- An item that is put in place carries the byline of such a user. -/
def Signed (Own : User → Prop) : Write → Prop
  | .setData r data => ∀ b, byline r.collection data = some b → ∃ user, Own user ∧ b = user.byline
  | _ => True

def Signs (uid : Uid) (Own : User → Prop) : Obs sig → Prop
  | .issued w => Signed Own w
  | .wrote w _ => Signed Own w
  | .changed f => ∀ app, OwnApp uid Own app → OwnApp uid Own (f app)
  | _ => True

/-- The code only writes items signed by the account. -/
abbrev SignedCode (uid : Uid) (Own : User → Prop) (b : Block) : Prop :=
  b.Under (OwnApp uid Own) (OwnAnswer uid Own) (Signs uid Own)

section

variable {uid : Uid} {Own : User → Prop} {F : Part → Prop} {C : Collection → Prop}
  {i c : Nat} {b b' : Block}

theorem plain_signs : Plain (Signs uid Own) := ⟨fun _ _ => trivial, fun _ => trivial⟩

theorem sends_signs {w : Write} (h : Signed Own w) : Sends (Signs uid Own) w := ⟨h, fun _ => h⟩

theorem sends_unsigned {w : Write} (h : ∀ data, byline w.ref.collection data = none) :
    Sends (Signs uid Own) w := by
  refine sends_signs ?_
  cases w with
  | setData r data =>
      intro b hb
      rw [show byline r.collection data = none from h data] at hb
      cases hb
  | updateData r data => trivial
  | delete r => trivial

theorem signs_andThen (h : SignedCode uid Own b) (h' : SignedCode uid Own b') :
    SignedCode uid Own (b >> b') := Code.Under.andThen h' h

/-- A change of other parts of the memory. -/
theorem signs_only {f : App → App} (h : Only F f) (hu : ¬F .currentUser) (huser : ¬F .user)
    (hup : ¬F .uploads) : Signs uid Own (.changed f) := by
  intro app happ
  have hu' : (f app).currentUser = app.currentUser := h app _ hu
  have huser' : (f app).user = app.user := h app _ huser
  have hup' : (f app).uploads = app.uploads := h app _ hup
  refine ⟨?_, ?_, ?_⟩
  · rw [hu']; exact happ.currentUser
  · rw [huser']; exact happ.user
  · rw [hup']; exact happ.uploads

/-- What is sent and what is changed of the memory are enough, where only they matter. -/
theorem under_of_edits {L : App → Prop} {A : (q : Ask) → q.Ans → Prop} {P : Obs sig → Prop}
    (hP : Plain P) (hnote : ∀ n, P (.noted n)) (hedits : Edits F b) (htouches : Touches C b)
    (hsend : ∀ w : Write, C w.ref.collection → Sends P w)
    (hchanged : ∀ f, Only F f → P (.changed f)) : b.Under L A P := by
  have hsent : b.Under L A fun o => (∀ f, o ≠ .changed f) → P o :=
    htouches.under (fun w hw => ⟨fun _ => (hsend w hw).issued, fun r _ => (hsend w hw).wrote r⟩)
      (fun q a _ => hP.answered q a) (fun v _ => hP.supplied v)
      (fun f h => absurd rfl (h f)) fun n _ => hnote n
  refine ((hedits.weaken (fun _ _ => trivial) fun _ _ _ => trivial).and hsent).mono fun o ho => ?_
  cases o with
  | changed f => exact hchanged f ho.1
  | _ => exact ho.2 (by simp)

/-- Code that neither writes items nor touches the users the memory keeps. -/
theorem signs_of_edits (hedits : Edits F b) (htouches : Touches C b) (hu : ¬F .currentUser)
    (huser : ¬F .user) (hup : ¬F .uploads) (hC : ∀ k, C k → ∀ data, byline k data = none) :
    SignedCode uid Own b :=
  under_of_edits plain_signs (fun _ => trivial) hedits htouches
    (fun _ hw => sends_unsigned (hC _ hw)) fun _ hf => signs_only hf hu huser hup

/-! ## What writes items -/

section

variable (hOwn : ∀ user, Own user → user.uid = uid)

theorem signs_feed {f : App → List FeedController} :
    Signs uid Own (.changed fun app => { app with feeds := f app }) :=
  signs_only (F := Eq .feeds) (only_feeds rfl) (by simp) (by simp) (by simp)

theorem signs_hud {b : Bool} : Signs uid Own (.changed ({ · with hud := b })) :=
  signs_only (F := Eq .hud) (only_hud rfl) (by simp) (by simp) (by simp)

theorem signs_loader {b : Bool} : SignedCode uid Own (showLoader b) := under_showLoader signs_hud

include hOwn

theorem signed_post {caption imageUrl : String} {v : Uid} {user : User} {now : Timestamp}
    {p : DocId} (hv : v = uid) (huser : Own user) :
    Signed Own (.setData ⟨.posts, p⟩ (PostService.postData caption imageUrl v user now)) := by
  rintro b hb
  cases hb
  refine ⟨user, huser, ?_⟩
  rw [User.byline, hOwn user huser, ← hv]
  rfl

omit hOwn in
theorem signed_comment {comment : String} {user : User} {now : Timestamp} {p id : DocId}
    (huser : Own user) :
    Signed Own (.setData ⟨.comments p, id⟩ (CommentService.commentData comment user now)) := by
  rintro b hb
  cases hb
  exact ⟨user, huser, rfl⟩

theorem signed_notice {v receiver : Uid} {user : User} {type : NotificationType} {p : Option Post}
    {e : Env} {id : DocId} (hv : v = uid) (huser : Own user) :
    Signed Own (.setData ⟨.userNotifications receiver, id⟩ (postNotice v user type p e)) := by
  rintro b hb
  refine ⟨user, huser, ?_⟩
  rw [User.byline, hOwn user huser, ← hv]
  cases p <;> cases hb <;> rfl

theorem signs_uploadNotification {receiver : Uid} {user : User} {type : NotificationType}
    {post : Option Post} (huser : Own user) :
    SignedCode uid Own (NotificationService.uploadNotification receiver user type post) :=
  under_uploadNotification plain_signs fun _ v _ happ hv _ =>
    sends_signs (signed_notice hOwn (happ.currentUser v hv) huser)

theorem signs_didTapLike : SignedCode uid Own (FeedController.didTapLike i c) := by
  refine under_viewModel fun post => under_tabUser fun app user happ huser => signs_andThen ?_ ?_
  · exact ⟨signs_feed, trivial⟩
  · split
    · refine under_unlikePost (fun v => ⟨sends_signs trivial, sends_signs trivial,
        sends_signs trivial⟩) fun e => ?_
      cases e with
      | some _ => trivial
      | none => exact ⟨signs_feed, trivial⟩
    · refine under_likePost (fun v => ⟨sends_signs trivial, sends_unsigned fun _ => rfl,
        sends_unsigned fun _ => rfl⟩) fun e => ?_
      cases e with
      | some _ => trivial
      | none =>
          exact signs_andThen ⟨signs_feed, trivial⟩
            (signs_uploadNotification hOwn (happ.user user huser))

theorem signs_tapActionButton :
    SignedCode uid Own (ProfileController.handleEditProfileFollowTapped i) := by
  have hmodify : ∀ f, SignedCode uid Own (ProfileController.modify i f) := fun f =>
    ⟨signs_only (F := Eq .profiles) (only_profiles rfl) (by simp) (by simp) (by simp), trivial⟩
  have hfeed : ∀ user b, SignedCode uid Own (PostService.updateUserFeedAfterFollowing user b) :=
    fun user b => under_updateUserFeedAfterFollowing plain_signs fun _ _ =>
      ⟨sends_unsigned fun _ => rfl, sends_unsigned fun _ => rfl⟩
  refine under_profile_get fun profile => ?_
  cases profile.header with
  | none => trivial
  | some user =>
      refine under_tabUser fun app currentUser happ huser app' _ => ?_
      show Code.Under _ _ _ (if app'.currentUser == some user.uid then .done
        else if user.isFollowed then _ else _)
      split
      · trivial
      · split
        · refine under_unfollow (fun v => ⟨sends_unsigned fun _ => rfl,
            sends_unsigned fun _ => rfl⟩) fun e => ?_
          exact signs_andThen (hmodify _) (hfeed _ _)
        · refine under_follow (fun v => ⟨sends_unsigned fun _ => rfl,
            sends_unsigned fun _ => rfl⟩) fun e => ?_
          refine signs_andThen (hmodify _) (signs_andThen ?_ (hfeed _ _))
          refine under_uploadFollowNotification plain_signs fun e => sends_signs ?_
          have hown := happ.user currentUser huser
          exact signed_notice (p := none) hOwn (hOwn currentUser hown) hown

theorem signs_inputView {comment : String} :
    SignedCode uid Own (CommentController.inputView i comment) := by
  refine Code.Under.get fun app _ => ?_
  cases app.comments[i]? with
  | none => trivial
  | some screen =>
      refine under_tabUser fun app' user happ huser => signs_andThen signs_loader ?_
      refine under_uploadComment plain_signs
        (fun e => sends_signs (signed_comment (happ.user user huser))) fun e => ?_
      exact signs_andThen signs_loader
        (signs_uploadNotification hOwn (happ.user user huser))

omit hOwn in
theorem signs_handleRefresh : SignedCode uid Own (FeedController.handleRefresh i) :=
  signs_of_edits (F := Eq .feeds) (C := fun _ => False) (edits_handleRefresh rfl)
    (Touches.andThen (b := FeedController.modify i _) trivial touches_feed_fetchPosts)
    (by simp) (by simp) (by simp) fun _ h => h.elim

omit hOwn in
theorem signs_onUpload (e : Option FIRError) :
    SignedCode uid Own (UploadPostController.onUpload e) := by
  refine signs_andThen signs_loader ?_
  cases e with
  | some _ => trivial
  | none =>
      intro app _
      cases ht : app.tabFeed with
      | none => simp only [ht]; trivial
      | some feed => simp only [ht]; exact signs_handleRefresh

theorem signs_didTapDone {caption : String} :
    SignedCode uid Own (UploadPostController.didTapDone i caption) := by
  refine Code.Under.get fun app happ => ?_
  split
  · next image user hi =>
      have huser : Own user := happ.uploads _ (List.mem_of_getElem? hi) user rfl
      refine signs_andThen signs_loader ?_
      exact under_uploadPost plain_signs (fun app v url e happ hv =>
        sends_signs (signed_post hOwn (happ.currentUser v hv) huser))
        (fun _ _ => sends_unsigned fun _ => rfl) signs_onUpload
  · trivial

end

/-! ## What changes the users the memory keeps -/

theorem signs_currentUser {v : Uid} (hv : v = uid) :
    Signs uid Own (.changed ({ · with currentUser := some v })) := by
  intro app happ
  refine ⟨fun x hx => ?_, happ.user, happ.uploads⟩
  cases hx
  exact hv

theorem signs_tab_fetchUser : SignedCode uid Own MainTabController.fetchUser := by
  refine under_fetchUser plain_signs fun app v data happ hv ha => ⟨fun app' happ' => ?_, trivial⟩
  have huser : Own (User.init data) := ha data (by rw [happ.currentUser v hv]) rfl
  refine ⟨happ'.currentUser, fun x hx => ?_, happ'.uploads⟩
  cases hx
  exact huser

theorem signs_handleLogin {email password : String} :
    SignedCode uid Own (LoginController.handleLogin email password) := by
  refine signs_andThen signs_loader
    (under_signIn plain_signs (fun v ha => signs_currentUser (ha v rfl)) fun r _ => ?_)
  cases r with
  | error e => exact signs_loader
  | ok v => exact signs_andThen signs_loader signs_tab_fetchUser

theorem signs_handleSignUp {email password fullname username : String} {image : UIImage} :
    SignedCode uid Own
      (RegisterationController.handleSignUp email password fullname username image) := by
  refine signs_andThen signs_loader (under_registerUser plain_signs
    (fun v ha => signs_currentUser (ha v rfl)) (fun _ _ => sends_unsigned fun _ => rfl)
    fun e => ?_)
  cases e with
  | some _ => exact signs_loader
  | none => exact signs_andThen signs_loader signs_tab_fetchUser

theorem signs_answerAlert {k : Nat} {yes : Bool} :
    SignedCode uid Own (FeedController.answerAlert k yes) := by
  refine Code.Under.get fun app _ => ?_
  cases app.alerts[k]? with
  | none => trivial
  | some x =>
      refine ⟨signs_only (F := Eq .alerts) (only_alerts rfl) (by simp) (by simp) (by simp), ?_⟩
      split
      · exact signs_andThen signs_loader (signs_andThen (under_removePost (sends_signs trivial))
          signs_loader)
      · trivial

/-- Every action but the deletion of the account. -/
theorem signs_action (hOwn : ∀ user, Own user → user.uid = uid) {a : Action}
    (ha : a ≠ .deleteAccount) {app : App} (happ : OwnApp uid Own app) :
    SignedCode uid Own (a.block.start app) := by
  have start : ∀ {b : Block}, SignedCode uid Own b → SignedCode uid Own (b.start app) :=
    fun h => h.start (fun _ hf => hf) happ
  cases a with
  | tapLike i c => exact start (signs_didTapLike hOwn)
  | tapActionButton i => exact start (signs_tapActionButton hOwn)
  | sendComment i comment => exact start (signs_inputView hOwn)
  | tapDone i caption => exact start (signs_didTapDone hOwn)
  | answerAlert k yes => exact start signs_answerAlert
  | tabDidLoad => exact start signs_tab_fetchUser
  | login email password => exact start signs_handleLogin
  | signUp email password fullname username image => exact start signs_handleSignUp
  | logout =>
      refine start ⟨fun app happ => ⟨fun x hx => ?_, happ.user, happ.uploads⟩, trivial⟩
      cases hx
  | didFinishPicking image =>
      refine start ⟨fun app happ => ⟨happ.currentUser, happ.user, fun screen hs user hu => ?_⟩,
        trivial⟩
      rcases List.mem_append.mp hs with hs | hs
      · exact happ.uploads screen hs user hu
      · rw [List.mem_singleton.mp hs] at hu
        exact happ.user user hu
  | deleteAccount => exact absurd rfl ha
  | _ =>
      -- the others write no item and keep the users
      refine signs_of_edits ((edits_action fun _ h => h).start (fun _ _ _ _ => trivial) trivial)
        (touches_action _ app) (by simp [Action.edits]) (by simp [Action.edits])
        (by simp [Action.edits]) fun k hk data => ?_
      cases k <;> first | rfl | cases hk

end

/-! ## Runs -/

section

variable {D : Type}

/-- On each device only its own account is registered or signs in, and no
account is deleted. -/
structure OneAccount [DecidableEq D] (acct : D → Uid) (w : World village D)
    (e : Event village D) : Prop where
  kept : ∀ d, e ≠ .act d Action.deleteAccount
  signUp : ∀ d t email password u srv,
    e.Answers w d t (Ask.createUser email password) (.ok u) srv → u = acct d
  signIn : ∀ d t email password u srv,
    e.Answers w d t (Ask.signIn email password) (.ok u) srv → u = acct d

/-- The device has read the user in the account's document. -/
def ReadUser (log : Log D) (d : D) (uid : Uid) (user : User) : Prop :=
  user.uid = uid ∧ ∃ x ∈ log, x.device = d ∧ ∃ profile,
    x.obs = .answered (.getDocument ⟨.users, uid⟩) (some (some profile)) ∧
      user = User.init profile

/-- Nobody has edited the profile of `u` in this part of the log. -/
def Unedited (log : Log D) (u : Uid) : Prop :=
  ∀ x ∈ log, ∀ data, x.obs ≠ .wrote (.updateData ⟨.users, u⟩ data) none

/-- Before it wrote the item, the device that did read this byline in the
author's document; the document still gives it if nobody has edited the
profile since. -/
def Attributed (w : World village D) (r : Ref Collection) (b : Byline) : Prop :=
  ∃ newer x older profile, w.log = newer ++ x :: older ∧
    x.obs = .answered (.getDocument ⟨.users, b.uid⟩) (some (some profile)) ∧
    (User.init profile).byline = b ∧
    (∃ y ∈ newer, y.device = x.device ∧ ∃ data, y.obs = .wrote (.setData r data) none) ∧
    (Unedited newer b.uid → w.server.docs.get ⟨.users, b.uid⟩ = some profile)

variable [DecidableEq D] {acct : D → Uid} {w w' : World village D} {e : Event village D}
  {d : D} {u : Uid}

theorem ownAnswer_of_run {log : Log D} (hrun : Run (OneAccount acct) emptyWorld w)
    (hok : OneAccount acct w e) (hs : Stepped w e w') {t : Call} {q : Ask} {a : q.Ans}
    {srv : Server} (hans : e.Answers w d t q a srv) (hlog : w'.log <:+ log) :
    OwnAnswer (acct d) (ReadUser log d (acct d)) q a := by
  cases q with
  | createUser email password => rintro u rfl; exact hok.signUp d t email password u srv hans
  | signIn email password => rintro u rfl; exact hok.signIn d t email password u srv hans
  | getDocument r =>
      rintro profile rfl rfl
      have hfetched := (sound_of_run hrun).answer_step hs hans profile rfl
      have hread : (⟨d, t, .answered (.getDocument ⟨.users, acct d⟩) (some (some profile))⟩ :
          Entry village D) ∈ w'.log := (hans.step hs).1 ▸ List.mem_cons_self
      exact ⟨string_of_lookup hfetched.1.1, _, hlog.subset hread, rfl, profile, rfl, rfl⟩
  | _ => trivial

/-- Whatever is outstanding on a device comes to items signed with a user
it has read. -/
theorem signed_of_run (hrun : Run (OneAccount acct) emptyWorld w) (d : D) :
    (w.devices d).Under (OwnApp (acct d) (ReadUser w.log d (acct d)))
      (OwnAnswer (acct d) (ReadUser w.log d (acct d)))
      (fun _ => Signs (acct d) (ReadUser w.log d (acct d))) ∧
    OwnApp (acct d) (ReadUser w.log d (acct d)) (w.devices d).loc := by
  -- the log is the one the run ends with, which every step's log is part of
  refine hrun.inv_within (fun w₁ : World village D => (w₁.devices d).Under
      (OwnApp (acct d) (ReadUser w.log d (acct d)))
      (OwnAnswer (acct d) (ReadUser w.log d (acct d)))
      (fun _ => Signs (acct d) (ReadUser w.log d (acct d))) ∧
    OwnApp (acct d) (ReadUser w.log d (acct d)) (w₁.devices d).loc) ?_ ?_
  · refine ⟨.of_idle rfl rfl, ?_⟩
    constructor <;> simp [emptyWorld]
  · rintro w₁ e w₂ hrun₁ ⟨hunder, happ⟩ hok hs hlog
    have hstep := hunder.step (fun _ _ hf => hf) happ hs
      (fun a he => signs_action (fun _ h => h.1) (fun ha => hok.kept d (ha ▸ he)) happ)
      fun t q a srv hans => ownAnswer_of_run hrun₁ hok hs hans hlog
    exact ⟨hstep.1, hstep.2.2.keeps (fun _ _ hf => hf) happ⟩

/-! ## The profile that was read -/

theorem not_deleting (hrun : Run (OneAccount acct) emptyWorld w) {t : Call} :
    w.Active d t → t.op ≠ .delete := by
  induction hrun with
  | refl => exact fun h => absurd h not_active_emptyWorld
  | @step w w' e _ hok hstep ih =>
      intro h
      rcases active_of_step (stepped_of_step hstep) h with h | ⟨a, rfl, rfl⟩
      · exact ih h
      · intro hop
        have hstarts : Action.Starts (w.devices d).loc a .delete :=
          (show a.op (w.devices d).loc = .delete from hop) ▸ a.starts (w.devices d).loc
        cases hstarts
        exact hok.kept d rfl

/-- A profile is changed by edits only. -/
theorem profile_step (hrun : Run (OneAccount acct) emptyWorld w) (hs : Stepped w e w')
    {l : Log D} (hlog : w'.log = l ++ w.log) (hedit : Unedited l u) {profile : Dictionary}
    (hget : w.server.docs.get ⟨.users, u⟩ = some profile) :
    w'.server.docs.get ⟨.users, u⟩ = some profile := by
  cases docsStep hs with
  | same hdocs _ => rw [hdocs]; exact hget
  | @wrote d m ms he hw hlog' hget' =>
      rw [hget']
      split
      · next hr =>
          have hm : m ∈ (w.devices d).writes := by rw [hw]; exact List.mem_cons_self
          have hl : l = [⟨d, m.tag, .wrote m.write none⟩] :=
            List.append_cancel_right (hlog.symm.trans hlog')
          cases hwr : m.write with
          | setData r data =>
              rw [hwr] at hr
              have hr : r = ⟨.users, u⟩ := hr.symm
              rw [hr] at hwr
              exact absurd (existed_of_present hrun hget) (not_existed_of_sent hrun hm hwr)
          | updateData r data =>
              rw [hwr] at hr hl
              have hr : r = ⟨.users, u⟩ := hr.symm
              rw [hl, hr] at hedit
              exact absurd rfl (hedit _ List.mem_cons_self data)
          | delete r =>
              rw [hwr] at hr
              have hr : r = ⟨.users, u⟩ := hr.symm
              have hok : WriteOk False w.log m.tag m.write :=
                (((sound_of_run hrun).code.held d).writes m hm).1
              rw [hwr, hr] at hok
              have htag : m.tag = ⟨some u, .delete⟩ := hok
              have hactive : w.Active d m.tag :=
                Device.mem_tags.mpr (Or.inr (Or.inl ⟨m, hm, rfl⟩))
              exact absurd (congrArg Call.op htag) (not_deleting hrun hactive)
      · exact hget

/-- An entry of the log is one of its newest entries, or one of the others. -/
theorem entry_split {α : Type} {l old newer older : List α} {x : α}
    (h : l ++ old = newer ++ x :: older) :
    x ∈ l ∨ ∃ newer', newer = l ++ newer' ∧ old = newer' ++ x :: older := by
  rcases List.append_eq_append_iff.mp h with ⟨m, rfl, hm⟩ | ⟨m, rfl, hm⟩
  · exact Or.inr ⟨m, rfl, hm⟩
  · cases m with
    | nil => exact Or.inr ⟨[], by simp, by simpa using hm.symm⟩
    | cons y m =>
        cases hm
        exact Or.inl (List.mem_append_right _ List.mem_cons_self)

/-- What was read of a profile is what is stored, until it is edited. -/
theorem profile_kept (hrun : Run (OneAccount acct) emptyWorld w) {profile : Dictionary}
    {x : Entry village D} (hx : x.obs = .answered (.getDocument ⟨.users, u⟩) (some (some profile))) :
    ∀ newer older, w.log = newer ++ x :: older → Unedited newer u →
      w.server.docs.get ⟨.users, u⟩ = some profile := by
  induction hrun with
  | refl => intro newer older h; simp [emptyWorld] at h
  | @step w w' e hrun hok hstep ih =>
      intro newer older hlog hedit
      have hs := stepped_of_step hstep
      -- the entry is the newest, or the step came after it
      have old : ∀ l, w'.log = l ++ w.log → (∀ y ∈ l, y.obs ≠ x.obs) →
          w'.server.docs.get ⟨.users, u⟩ = some profile := by
        intro l hl hne
        rcases entry_split (hl.symm.trans hlog) with h | ⟨newer', rfl, hold⟩
        · exact absurd rfl (hne x h)
        · refine profile_step hrun hs hl (fun y hy => hedit y (List.mem_append_left _ hy)) ?_
          exact ih newer' older hold fun y hy => hedit y (List.mem_append_right _ hy)
      cases hs.logs with
      | acted he hl => exact old [_] hl (by simp [hx])
      | wrote he hw hl => exact old [_] hl (by simp [hx])
      | own hl hown =>
          refine old _ hl fun y hy h => ?_
          have := hown y hy
          rw [h, hx] at this
          cases this
      | @answered d t q a hans hl =>
          by_cases ho : Obs.answered q a = x.obs
          · rw [hx] at ho
            cases ho
            rw [answers_docs hans]
            exact answers_read hans
          · exact old [_] hl (by simpa using ho)

/-! ## The bylines of stored items -/

/-- The device that wrote the item had read the byline in a profile. -/
def Copied (log : Log D) (r : Ref Collection) (b : Byline) : Prop :=
  ∃ newer x older profile, log = newer ++ x :: older ∧
    x.obs = .answered (.getDocument ⟨.users, b.uid⟩) (some (some profile)) ∧
    (User.init profile).byline = b ∧
    ∃ y ∈ newer, y.device = x.device ∧ ∃ data, y.obs = .wrote (.setData r data) none

omit [DecidableEq D] in
theorem Copied.mono {log log' : Log D} (h : log <:+ log') {r : Ref Collection} {b : Byline}
    (hb : Copied log r b) : Copied log' r b := by
  obtain ⟨l, rfl⟩ := h
  obtain ⟨newer, x, older, profile, rfl, hx, hprofile, y, hy, hwrote⟩ := hb
  exact ⟨l ++ newer, x, older, profile, by simp, hx, hprofile, y, List.mem_append_right _ hy, hwrote⟩

omit [DecidableEq D] in
/-- A count of likes changes no byline. -/
theorem byline_updated {t : Call} {log : Log D} {r : Ref Collection} {data old : Dictionary}
    {b : Byline} (hok : WriteOk False log t (.updateData r data))
    (hb : byline r.collection (data ++ old) = some b) : byline r.collection old = some b := by
  obtain ⟨k, id⟩ := r
  cases k with
  | posts => obtain ⟨n, rfl, -⟩ := hok; exact hb
  | users => cases hb
  | _ => exact hok.elim

theorem copied_of_run (hrun : Run (OneAccount acct) emptyWorld w) :
    ∀ r data b, w.server.docs.get r = some data → byline r.collection data = some b →
      Copied w.log r b := by
  induction hrun with
  | refl => intro r data b h; cases h
  | @step w w' e hrun hok hstep ih =>
      intro r data b hget hb
      have hs := stepped_of_step hstep
      cases docsStep hs with
      | same hdocs _ => exact (ih r data b (hdocs ▸ hget) hb).mono hs.log
      | @wrote d m ms he hw hlog hget' =>
          rw [hget'] at hget
          split at hget
          · next hr =>
              subst hr
              have hm : m ∈ (w.devices d).writes := by rw [hw]; exact List.mem_cons_self
              cases hwr : m.write with
              | setData r data' =>
                  rw [hwr] at hget hlog hb
                  cases hget
                  have hsigned := ((signed_of_run hrun d).1.writes m hm none).1
                  rw [hwr] at hsigned
                  obtain ⟨user, ⟨huid, x, hx, hxd, profile, ho, rfl⟩, rfl⟩ := hsigned b hb
                  obtain ⟨newer, older, hsplit⟩ := List.append_of_mem hx
                  refine ⟨⟨d, m.tag, .wrote (.setData r data) none⟩ :: newer, x, older, profile,
                    by rw [hlog, hsplit]; rfl, ?_, rfl, _, List.mem_cons_self, hxd.symm, data, rfl⟩
                  rw [ho, ← huid]
                  rfl
              | updateData r data' =>
                  rw [hwr] at hget hb
                  obtain ⟨old, hold, rfl⟩ := Option.map_eq_some_iff.mp hget
                  have hok : WriteOk False w.log m.tag m.write :=
                    (((sound_of_run hrun).code.held d).writes m hm).1
                  rw [hwr] at hok
                  exact (ih r old b hold (byline_updated hok hb)).mono hs.log
              | delete r => rw [hwr] at hget; cases hget
          · exact (ih r data b hget hb).mono hs.log

/-- Every stored post, comment and notification carries the name and image
that the device it was written on had read in its author's profile; they
are the profile's as long as nobody has edited it since that reading. -/
theorem attributed_of_run (hrun : Run (OneAccount acct) emptyWorld w) {r : Ref Collection}
    {data : Dictionary} {b : Byline} (hget : w.server.docs.get r = some data)
    (hb : byline r.collection data = some b) : Attributed w r b := by
  obtain ⟨newer, x, older, profile, hlog, hx, hprofile, hwrote⟩ := copied_of_run hrun r data b hget hb
  exact ⟨newer, x, older, profile, hlog, hx, hprofile, hwrote, profile_kept hrun hx newer older hlog⟩

end

/-! ## A renamed author -/

/-- Every item carries the name and image its author has now. -/
def BylinesCurrent {D : Type} (w : World village D) : Prop :=
  ∀ r data b, w.server.docs.get r = some data → byline r.collection data = some b →
    ∃ profile, w.server.docs.get ⟨.users, b.uid⟩ = some profile ∧ (User.init profile).byline = b

/-- The user of an account acts when nothing they did is outstanding. -/
def InTurn {D : Type} (acct : D → Uid) (w : World village D) (e : Event village D) : Prop :=
  ∀ d a, e = .act d a → ∀ d', acct d' = acct d → (w.devices d').idle = true

/-- Alice uploads a post, changes her name and image, and uploads another. -/
def aliceRenamed : World village Unit :=
  emptyWorld
    |> smooth.perform () (.signUp "alice@dog.kr" "secret" "Alice" "alice" ⟨some []⟩) 100
    |> smooth.perform () (.didFinishPicking ⟨some []⟩) 100
    |> smooth.perform () (.tapDone 0 "walk") 100
    |> smooth.perform () (.editProfile "Rex" "Alice" ⟨some []⟩) 100
    |> smooth.perform () (.didFinishPicking ⟨some []⟩) 100
    |> smooth.perform () (.tapDone 1 "bath") 100

def Action.keeps : Action → Bool
  | deleteAccount => false
  | _ => true

/-- Nothing fails, and only Alice has an account. -/
def aliceAnswered (srv : Server) : Server.Choice → Bool
  | .fail _ => false
  | .uid u => u == "n1"
  | _ => srv.accounts.all (·.uid == "n1")

/-- Alice acts on an idle device. -/
def aliceAlone (w : World village Unit) : Event village Unit → Bool
  | .act _ a => (w.devices ()).idle && a.keeps
  | .commit _ fail => fail.isNone
  | .answer _ _ c => aliceAnswered w.server c
  | .notify .. => false
  | _ => true

theorem served_of_test {w : World village Unit} {e : Event village Unit}
    (h : aliceAlone w e = true) {d : Unit} {t : Call} {q : Ask} {a : q.Ans} {srv : Server}
    (hans : e.Answers w d t q a srv) :
    ∃ c, Server.serve q c w.server = some (a, srv) ∧ aliceAnswered w.server c = true := by
  cases hans with
  | answer hi hv => exact ⟨_, hv, h⟩
  | notify hi hv => cases h

theorem oneAccount_of_test {w : World village Unit} {e : Event village Unit}
    (h : aliceAlone w e = true) : OneAccount (fun _ => "n1") w e where
  kept d he := by
    subst he
    simp [aliceAlone, Action.keeps] at h
  signUp d t email password u srv hans := by
    obtain ⟨c, hv, hc⟩ := served_of_test h hans
    cases c with
    | uid v =>
        have hu : v = u := by
          simp only [Server.serve] at hv
          split at hv
          · cases hv
          · split at hv <;> cases hv
            rfl
        simpa [aliceAnswered, hu] using hc
    | _ => cases hv
  signIn d t email password u srv hans := by
    obtain ⟨c, hv, hc⟩ := served_of_test h hans
    cases c with
    | ok =>
        simp only [Server.serve] at hv
        split at hv
        · next acc hacc =>
            cases hv
            have hall : ∀ a ∈ w.server.accounts, a.uid = "n1" := by simpa [aliceAnswered] using hc
            exact hall acc (List.mem_of_find?_eq_some hacc)
        · cases hv
    | _ => cases hv

theorem inTurn_of_test {w : World village Unit} {e : Event village Unit}
    (h : aliceAlone w e = true) : InTurn (fun _ => "n1") w e := by
  rintro d a rfl d' -
  exact (Bool.and_eq_true_iff.mp h).1

theorem noFailure_of_test {w : World village Unit} {e : Event village Unit}
    (h : aliceAlone w e = true) : NoFailure w e := by
  cases e with
  | commit d fail => simpa [aliceAlone, NoFailure] using h
  | answer d i c => rintro err rfl; cases h
  | notify d i c => cases h
  | _ => trivial

theorem aliceRenamed_reached : Run (fun w e => aliceAlone w e = true) emptyWorld aliceRenamed := by
  unfold aliceRenamed
  iterate 6
    refine Policy.run_checks (fun _ _ h => h) (by decide) ?_
  exact .refl

/-- The byline of both posts. -/
def aliceByline : Byline := ⟨"n1", "alice".toLower, "/profile_image/n0"⟩

/-- Nothing has failed and nothing is outstanding, and neither the post
from before the edit nor the one from after it carries the new name. -/
theorem aliceRenamed_not_current :
    Run (fun w e => OneAccount (fun _ => "n1") w e ∧ InTurn (fun _ => "n1") w e ∧ NoFailure w e)
      emptyWorld aliceRenamed ∧ aliceRenamed.Idle ∧
    (aliceRenamed.server.docs.get ⟨.users, "n1"⟩).map (fun profile => (User.init profile).byline) =
      some ⟨"n1", "Rex", "/profile_image/n5"⟩ ∧
    (aliceRenamed.server.docs.get ⟨.posts, "n3"⟩).bind (byline .posts) = some aliceByline ∧
    (aliceRenamed.server.docs.get ⟨.posts, "n7"⟩).bind (byline .posts) = some aliceByline ∧
    ¬ BylinesCurrent aliceRenamed := by
  have hprofile : (aliceRenamed.server.docs.get ⟨.users, "n1"⟩).map
      (fun profile => (User.init profile).byline) = some ⟨"n1", "Rex", "/profile_image/n5"⟩ := by
    decide
  refine ⟨aliceRenamed_reached.mono fun _ _ h => ⟨oneAccount_of_test h, inTurn_of_test h,
    noFailure_of_test h⟩, fun _ => rfl, hprofile, rfl, rfl, fun hcurrent => ?_⟩
  obtain ⟨profile, hget, hb⟩ := hcurrent ⟨.posts, "n7"⟩ _ aliceByline rfl rfl
  rw [show aliceByline.uid = "n1" from rfl] at hget
  rw [hget, Option.map_some, hb] at hprofile
  exact absurd (congrArg Byline.profileImageUrl (Option.some.inj hprofile)) (by decide)

theorem attributed_aliceRenamed : Attributed aliceRenamed ⟨.posts, "n7"⟩ aliceByline :=
  attributed_of_run
    (aliceRenamed_reached.mono fun _ _ h => oneAccount_of_test h) rfl rfl

end DogVillage
