import DogVillage.Async.Repair
import DogVillage.Village

/-!
# The shared loader

One `JGProgressHUD` is shared by all screens: an action shows it, and every
branch of its completion has to hide it again. The screens that use it,
over any services: with the app's own they are those of `village`; here
each service is a call that invokes its completion exactly once, at any
moment and with either outcome.

On success `handleSignUp` shows the loader once more, where `handleLogin`
hides it, and `handleResetPassword` leaves it shown. As long as no
registration and no reset succeeds, the loader is hidden whenever nothing
is outstanding.
-/

namespace DogVillage.Loader

open Async

/-! ## The screens over any services -/

/-- The signature of app code over other calls than the app's. -/
@[reducible] def appSig (Ask : Type) (Ans : Ask → Type) : Sig where
  Write := Write
  Err := FIRError
  Ask := Ask
  Ans := Ans
  Env := Env
  Loc := App
  Note := Option FIRError

/-- The services the screens with a loader call, on blocks `B`. -/
structure Services (B : Type) where
  logUserIn (email password : String) (completion : Except FIRError Uid → B) : B
  registerUser (credentials : AuthCredentials) (completion : Option FIRError → B) : B
  resetPassword (email : String) (completion : Option FIRError → B) : B
  upDateUser (username fullname : String) (image : UIImage) (completion : Option FIRError → B) : B
  deletaUser : B
  uploadPost (caption : String) (image : UIImage) (user : User)
    (completion : Option FIRError → B) : B
  uploadComment (comment : String) (postID : DocId) (user : User)
    (completion : Option FIRError → B) : B
  uploadNotification (uid : Uid) (fromUser : User) (type : NotificationType) (post : Option Post) : B
  follow (uid : Uid) (completion : Option FIRError → B) : B
  unfollow (uid : Uid) (completion : Option FIRError → B) : B
  fetchUserWithUid (uid : Uid) (completion : User → B) : B
  fetchUser (completion : User → B) : B
  fetchPost (postId : DocId) (completion : Post → B) : B
  fetchPosts (completion : List Post → B) : B
  checkIfUserLikedPost (post : Post) (completion : Bool → B) : B
  removePost (postId : DocId) (currentUser : Uid) (completion : Option FIRError → B) : B

section

variable {Ask : Type} {Ans : Ask → Type}

def showLoader (show_ : Bool) : Code (appSig Ask Ans) := .modify ({ · with hud := show_ }) .done

def edit (f : App → App) : Code (appSig Ask Ans) := .modify f .done

def tabUser (k : User → Code (appSig Ask Ans)) : Code (appSig Ask Ans) :=
  .get fun app =>
    match app.user with
    | none => .done
    | some user => k user

def feedGet (i : Nat) (k : FeedController → Code (appSig Ask Ans)) : Code (appSig Ask Ans) :=
  .get fun app =>
    match app.feeds[i]? with
    | none => .done
    | some feed => k feed

def notificationGet (i : Nat) (k : NotificationController → Code (appSig Ask Ans)) :
    Code (appSig Ask Ans) :=
  .get fun app =>
    match app.notifications[i]? with
    | none => .done
    | some n => k n

def notificationViewModel (i c : Nat) (k : Notification → Code (appSig Ask Ans)) :
    Code (appSig Ask Ans) :=
  notificationGet i fun n =>
    match n.cells c with
    | none => .done
    | some notification => k notification

def showProfile (user : User) : Code (appSig Ask Ans) :=
  edit fun app => { app with profiles := app.profiles ++ [{ user := user }] }

def pushFeed (feed : FeedController) : Code (appSig Ask Ans) :=
  edit fun app => { app with feeds := app.feeds ++ [feed] }

def modifyFeed (i : Nat) (f : FeedController → FeedController) : Code (appSig Ask Ans) :=
  edit fun app => { app with feeds := app.feeds.modify i f }

variable (s : Services (Code (appSig Ask Ans)))

def authenticationComplete : Code (appSig Ask Ans) :=
  s.fetchUser fun user =>
    edit fun app => MainTabController.configureViewController user { app with user := some user }

def handleLogin (email password : String) : Code (appSig Ask Ans) :=
  showLoader true >>
  s.logUserIn email password fun result =>
    match result with
    | .error _ => showLoader false
    | .ok _ => showLoader false >> authenticationComplete s

def onRegister (error : Option FIRError) : Code (appSig Ask Ans) :=
  match error with
  | some _ => showLoader false
  | none => showLoader true >> authenticationComplete s

def handleSignUp (email password fullname username : String) (profileImage : UIImage) :
    Code (appSig Ask Ans) :=
  showLoader true >>
  s.registerUser ⟨email, password, fullname, username.toLower, profileImage⟩ (onRegister s)

def handleResetPassword (email : String) : Code (appSig Ask Ans) :=
  showLoader true >>
  s.resetPassword email fun error =>
    match error with
    | some _ => showLoader false
    | none => .done

/-- `handleSignUp` of `ResetInfomation` -/
def handleEdit (username fullname : String) (profileImage : UIImage) : Code (appSig Ask Ans) :=
  showLoader true >>
  s.upDateUser username fullname profileImage (fun error =>
    match error with
    | some _ => showLoader false
    | none => .done) >>
  showLoader false

/-- `yesAction` of `EditProfileContrller` -/
def deleteAccount : Code (appSig Ask Ans) := showLoader true >> s.deletaUser >> showLoader false

def checkIfUserLikedPosts (i : Nat) : Code (appSig Ask Ans) :=
  feedGet i fun feed =>
    match feed.post with
    | some post =>
        s.checkIfUserLikedPost post fun didLike =>
          .main (modifyFeed i (FeedController.setPostDidLike didLike)) .done
    | none =>
        .forEach feed.posts fun post =>
          s.checkIfUserLikedPost post fun didLike =>
            .main (modifyFeed i (FeedController.setDidLike post.postId didLike)) .done

def fetchPosts (i : Nat) : Code (appSig Ask Ans) :=
  feedGet i fun feed =>
    match feed.post with
    | some _ => .done
    | none =>
        s.fetchPosts fun posts =>
          modifyFeed i (FeedController.setPosts posts) >> checkIfUserLikedPosts s i

def handleRefresh (i : Nat) : Code (appSig Ask Ans) :=
  modifyFeed i (FeedController.setPosts []) >> fetchPosts s i

def controllerDidFinishUploadingPost : Code (appSig Ask Ans) :=
  .get fun app =>
    match app.tabFeed with
    | none => .done
    | some feed => handleRefresh s feed

def onUpload (error : Option FIRError) : Code (appSig Ask Ans) :=
  showLoader false >>
  match error with
  | some _ => .done
  | none => controllerDidFinishUploadingPost s

def didTapDone (i : Nat) (caption : String) : Code (appSig Ask Ans) :=
  .get fun app =>
    match app.uploads[i]? with
    | some ⟨some image, some user⟩ =>
        showLoader true >> s.uploadPost caption image user (onUpload s)
    | _ => .done

def onComment (post : Post) (currentUser : User) (_error : Option FIRError) :
    Code (appSig Ask Ans) :=
  showLoader false >> s.uploadNotification post.ownerUid currentUser .comment (some post)

/-- `inputView(_:wantsToUploadComment:)` -/
def inputView (i : Nat) (comment : String) : Code (appSig Ask Ans) :=
  .get fun app =>
    match app.comments[i]? with
    | none => .done
    | some ⟨post⟩ =>
        tabUser fun currentUser =>
          showLoader true >>
          s.uploadComment comment post.postId currentUser (onComment s post currentUser)

def onTap (i c : Nat) (_error : Option FIRError) : Code (appSig Ask Ans) :=
  showLoader false >>
  edit fun app =>
    { app with notifications := app.notifications.modify i (NotificationController.toggleCell c) }

def handleFollowTapped (i c : Nat) : Code (appSig Ask Ans) :=
  notificationViewModel i c fun notification =>
    if notification.userIsFollowed then
      showLoader true >> s.unfollow notification.uid (onTap i c)
    else showLoader true >> s.follow notification.uid (onTap i c)

def handlePostTapped (i c : Nat) : Code (appSig Ask Ans) :=
  notificationViewModel i c fun notification =>
    match notification.postId with
    | none => .done
    | some postId =>
        showLoader true >>
        s.fetchPost postId fun post => showLoader false >> pushFeed { post := some post }

def didSelectRowAt (i row : Nat) : Code (appSig Ask Ans) :=
  notificationGet i fun n =>
    match n.notifications[row]? with
    | none => .done
    | some notification =>
        showLoader true >>
        s.fetchUserWithUid notification.uid fun user => showLoader false >> showProfile user

/-- `yesAction` of `cell(_:removePost:)` -/
def removePost (post : Post) (user : User) : Code (appSig Ask Ans) :=
  showLoader true >>
  s.removePost post.postId user.uid (fun _ => .done) >>
  showLoader false

def answerAlert (k : Nat) (yes : Bool) : Code (appSig Ask Ans) :=
  .get fun app =>
    match app.alerts[k]? with
    | none => .done
    | some (post, user) =>
        .modify (fun app => { app with alerts := app.alerts.eraseIdx k })
          (if yes then removePost s post user else .done)

/-- What the user does to a screen that uses the loader. What the rest of
the app does to the memory is `elsewhere`. -/
inductive Action
  | login (email password : String)
  | signUp (email password fullname username : String) (profileImage : UIImage)
  | resetPassword (email : String)
  | editProfile (username fullname : String) (profileImage : UIImage)
  | deleteAccount
  | tapDone (i : Nat) (caption : String)
  | sendComment (i : Nat) (comment : String)
  | tapFollow (i c : Nat)
  | tapPost (i c : Nat)
  | notificationSelect (i row : Nat)
  | answerAlert (k : Nat) (yes : Bool)
  | elsewhere (f : App → App) (h : ∀ app, (f app).hud = app.hud)

def Action.block : Action → Code (appSig Ask Ans)
  | login email password => handleLogin s email password
  | signUp email password fullname username image =>
      handleSignUp s email password fullname username image
  | resetPassword email => handleResetPassword s email
  | editProfile username fullname image => handleEdit s username fullname image
  | deleteAccount => Loader.deleteAccount s
  | tapDone i caption => didTapDone s i caption
  | sendComment i comment => inputView s i comment
  | tapFollow i c => handleFollowTapped s i c
  | tapPost i c => handlePostTapped s i c
  | notificationSelect i row => didSelectRowAt s i row
  | answerAlert k yes => Loader.answerAlert s k yes
  | elsewhere f _ => edit f

end

/-! ## The app's own services -/

def appServices : Services Block where
  logUserIn := AuthService.logUserIn
  registerUser := AuthService.registerUser
  resetPassword := AuthService.resetPassword
  upDateUser := AuthService.upDateUser
  deletaUser := AuthService.deletaUser
  uploadPost := PostService.uploadPost
  uploadComment := CommentService.uploadComment
  uploadNotification := NotificationService.uploadNotification
  follow := UserService.follow
  unfollow := UserService.unfollow
  fetchUserWithUid := UserService.fetchUserWithUid
  fetchUser := UserService.fetchUser
  fetchPost := PostService.fetchPost
  fetchPosts := PostService.fetchPosts
  checkIfUserLikedPost := PostService.checkIfUserLikedPost
  removePost := PostService.removePost

/-- The same action in `village`. -/
def Action.inVillage : Action → Option DogVillage.Action
  | login email password => some (.login email password)
  | signUp email password fullname username image =>
      some (.signUp email password fullname username image)
  | resetPassword email => some (.resetPassword email)
  | editProfile username fullname image => some (.editProfile username fullname image)
  | deleteAccount => some .deleteAccount
  | tapDone i caption => some (.tapDone i caption)
  | sendComment i comment => some (.sendComment i comment)
  | tapFollow i c => some (.tapFollow i c)
  | tapPost i c => some (.tapPost i c)
  | notificationSelect i row => some (.notificationSelect i row)
  | answerAlert k yes => some (.answerAlert k yes)
  | elsewhere .. => none

/-- With the app's own services these are the screens of `village`. -/
theorem block_inVillage {a : Action} {b : DogVillage.Action} (h : a.inVillage = some b) :
    (a.block appServices : Block) = b.block := by
  cases a <;> cases h <;> rfl

/-! ## Services that answer exactly once -/

inductive ServiceCall
  | logUserIn (email password : String)
  | registerUser (credentials : AuthCredentials)
  | resetPassword (email : String)
  | upDateUser (username fullname : String) (image : UIImage)
  | deletaUser
  | uploadPost (caption : String) (image : UIImage) (user : User)
  | uploadComment (comment : String) (postID : DocId) (user : User)
  | uploadNotification (uid : Uid) (fromUser : User) (type : NotificationType) (post : Option Post)
  | follow (uid : Uid)
  | unfollow (uid : Uid)
  | fetchUserWithUid (uid : Uid)
  | fetchUser
  | fetchPost (postId : DocId)
  | fetchPosts
  | checkIfUserLikedPost (post : Post)
  | removePost (postId : DocId) (currentUser : Uid)
deriving DecidableEq, Repr

/-- What the completion is given; `deletaUser` and `uploadNotification`
take none. -/
@[reducible] def ServiceCall.Ans : ServiceCall → Type
  | logUserIn .. => Except FIRError Uid
  | registerUser _ => Option FIRError
  | resetPassword _ => Option FIRError
  | upDateUser .. => Option FIRError
  | deletaUser => Unit
  | uploadPost .. => Option FIRError
  | uploadComment .. => Option FIRError
  | uploadNotification .. => Unit
  | follow _ => Option FIRError
  | unfollow _ => Option FIRError
  | fetchUserWithUid _ => User
  | fetchUser => User
  | fetchPost _ => Post
  | fetchPosts => List Post
  | checkIfUserLikedPost _ => Bool
  | removePost .. => Option FIRError

abbrev CallBlock := Code (appSig ServiceCall ServiceCall.Ans)

/-- One call each, answered once. -/
def calls : Services CallBlock where
  logUserIn email password completion := .ask (.logUserIn email password) completion .done
  registerUser credentials completion := .ask (.registerUser credentials) completion .done
  resetPassword email completion := .ask (.resetPassword email) completion .done
  upDateUser username fullname image completion :=
    .ask (.upDateUser username fullname image) completion .done
  deletaUser := .ask .deletaUser (fun _ => .done) .done
  uploadPost caption image user completion :=
    .ask (.uploadPost caption image user) completion .done
  uploadComment comment postID user completion :=
    .ask (.uploadComment comment postID user) completion .done
  uploadNotification uid fromUser type post :=
    .ask (.uploadNotification uid fromUser type post) (fun _ => .done) .done
  follow uid completion := .ask (.follow uid) completion .done
  unfollow uid completion := .ask (.unfollow uid) completion .done
  fetchUserWithUid uid completion := .ask (.fetchUserWithUid uid) completion .done
  fetchUser completion := .ask .fetchUser completion .done
  fetchPost postId completion := .ask (.fetchPost postId) completion .done
  fetchPosts completion := .ask .fetchPosts completion .done
  checkIfUserLikedPost post completion := .ask (.checkIfUserLikedPost post) completion .done
  removePost postId currentUser completion :=
    .ask (.removePost postId currentUser) completion .done

/-- One device whose service calls are answered as the surroundings
choose. -/
def loading : System (appSig ServiceCall ServiceCall.Ans) where
  Srv := Unit
  Tag := Unit
  Action := Action
  Choice := (q : ServiceCall) → q.Ans
  apply _ srv := .ok srv
  serve q choice srv := some (choice q, srv)
  supply _ srv := some srv
  ui a _ := ((), a.block calls)

/-- Nothing outstanding, the loader hidden. -/
def startWorld (app : App) : World loading Unit where
  server := ()
  devices _ := { loc := { app with hud := false } }

/-! ## Every branch but two hides it -/

/-- The two successes whose completion leaves the loader shown. -/
def forgets : (q : ServiceCall) → q.Ans → Bool
  | .registerUser _, none => true
  | .resetPassword _, none => true
  | _, _ => false

/-- Wrong is a loader shown; what puts it right is `showLoader(false)`. -/
def shownLoader : Repair (appSig ServiceCall ServiceCall.Ans) Unit where
  loc _ := True
  ans q a := forgets q a = false
  cures _ f := ∀ app, (f app).hud = false
  sane _ := True
  given q a := forgets q a = false
  wrong _ app := app.hud = true
  cure _ f app hf _ := by simp [hf app]
  loc_of_sane _ _ := trivial
  ans_of_given _ _ h := h

/-- Code that leaves the loader alone. -/
theorem careful_edit {f : App → App} {n : CallBlock} {app : App}
    (hf : (f app).hud = app.hud) (hn : shownLoader.Careful n (f app)) :
    shownLoader.Careful (.modify f n) app :=
  Repair.careful_modify trivial (fun _ h => hf.symm.trans h) hn

theorem careful_hide {n : CallBlock} {app : App} (hn : shownLoader.Safe n) :
    shownLoader.Careful (showLoader false >> n) app := by
  refine ⟨⟨trivial, fun _ h => ?_⟩, hn _ trivial⟩
  cases h

theorem mends_hide {n : CallBlock} : shownLoader.Mends () (showLoader false >> n) :=
  Or.inl fun _ => rfl

/-- The loader is shown, and what follows hides it again. -/
theorem careful_show {n : CallBlock} {app : App} (hmends : shownLoader.Mends () n)
    (hn : shownLoader.Safe n) : shownLoader.Careful (showLoader true >> n) app := by
  have hstart : shownLoader.Mends () (n.start ({ app with hud := true } : App)) :=
    Repair.mends_start hmends trivial (hn _ trivial)
  exact ⟨⟨trivial, fun _ _ => Or.inr hstart⟩, hn _ trivial⟩

/-- A call whose completion hides the loader. -/
theorem careful_call {q : ServiceCall} {handler : q.Ans → CallBlock} {app : App}
    (hmends : ∀ a, forgets q a = false → shownLoader.Mends () (handler a))
    (hsafe : ∀ a, forgets q a = false → shownLoader.Safe (handler a)) :
    shownLoader.Careful (showLoader true >> Code.ask q handler .done) app :=
  careful_show (Or.inl hmends) fun _ _ => ⟨fun a ha l hl => hsafe a ha l hl, trivial⟩

theorem safe_done : shownLoader.Safe (.done : CallBlock) := fun _ _ => trivial

theorem safe_ask {q : ServiceCall} {handler : q.Ans → CallBlock}
    (hsafe : ∀ a, forgets q a = false → shownLoader.Safe (handler a)) :
    shownLoader.Safe (Code.ask q handler .done) := fun _ _ => ⟨fun a ha l hl => hsafe a ha l hl, trivial⟩

theorem safe_edit {f : App → App} (hf : ∀ app, (f app).hud = app.hud) :
    shownLoader.Safe (edit f : CallBlock) := fun app _ => careful_edit (hf app) trivial

theorem safe_hide : shownLoader.Safe (showLoader false : CallBlock) := fun _ _ =>
  careful_hide safe_done

theorem safe_authenticationComplete : shownLoader.Safe (authenticationComplete calls) :=
  safe_ask fun _ _ => safe_edit fun _ => rfl

theorem safe_feedGet {i : Nat} {k : FeedController → CallBlock}
    (hk : ∀ feed, shownLoader.Safe (k feed)) : shownLoader.Safe (feedGet i k) := by
  intro app _
  show shownLoader.Careful (match app.feeds[i]? with | none => .done | some feed => k feed) app
  cases app.feeds[i]? with
  | none => trivial
  | some feed => exact hk feed app trivial

theorem safe_checkIfUserLikedPosts {i : Nat} : shownLoader.Safe (checkIfUserLikedPosts calls i) := by
  refine safe_feedGet fun feed => ?_
  cases feed.post with
  | some post => exact safe_ask fun _ _ _ _ => ⟨fun _ _ => careful_edit rfl trivial, trivial⟩
  | none =>
      exact Repair.Careful.forEach fun post _ =>
        safe_ask fun _ _ _ _ => ⟨fun _ _ => careful_edit rfl trivial, trivial⟩

theorem safe_handleRefresh {i : Nat} : shownLoader.Safe (handleRefresh calls i) := by
  refine fun app _ => careful_edit rfl ?_
  refine safe_feedGet (fun feed => ?_) _ trivial
  cases feed.post with
  | some _ => exact safe_done
  | none => exact safe_ask fun _ _ app _ => careful_edit rfl (safe_checkIfUserLikedPosts _ trivial)

/-! ## The actions -/

theorem safe_onRegister {credentials : AuthCredentials} {error : Option FIRError}
    (h : forgets (.registerUser credentials) error = false) :
    shownLoader.Mends () (onRegister calls error) ∧ shownLoader.Safe (onRegister calls error) := by
  cases error with
  | none => cases h
  | some _ => exact ⟨mends_hide (n := .done), safe_hide⟩

theorem safe_onUpload (error : Option FIRError) : shownLoader.Safe (onUpload calls error) := by
  refine fun app _ => careful_hide fun app _ => ?_
  cases error with
  | some _ => exact safe_done app trivial
  | none =>
      show shownLoader.Careful (match app.tabFeed with
        | none => .done
        | some feed => handleRefresh calls feed) app
      cases app.tabFeed with
      | none => exact safe_done app trivial
      | some feed => exact safe_handleRefresh app trivial

theorem safe_login {email password : String} :
    shownLoader.Safe (handleLogin calls email password) := by
  refine fun app _ => careful_call (fun result _ => ?_) fun result _ => ?_
  · cases result with
    | error _ => exact mends_hide (n := .done)
    | ok _ => exact mends_hide
  · cases result with
    | error _ => exact safe_hide
    | ok _ => exact fun _ _ => careful_hide safe_authenticationComplete

theorem safe_resetPassword {email : String} : shownLoader.Safe (handleResetPassword calls email) := by
  refine fun app _ => careful_call (fun error h => ?_) fun error h => ?_
  · cases error with
    | none => cases h
    | some _ => exact mends_hide (n := .done)
  · cases error with
    | none => cases h
    | some _ => exact safe_hide

/-- A call made between showing the loader and hiding it. -/
theorem safe_bracket {q : ServiceCall} {handler : q.Ans → CallBlock}
    (hsafe : ∀ a, forgets q a = false → shownLoader.Safe (handler a)) :
    shownLoader.Safe (showLoader true >> Code.ask q handler .done >> showLoader false) := by
  refine fun app _ => careful_show ?_ fun app _ => ?_
  · exact Or.inr (mends_hide (n := .done))
  · exact ⟨fun a ha l hl => hsafe a ha l hl, safe_hide app trivial⟩

theorem safe_edit_profile {username fullname : String} {image : UIImage} :
    shownLoader.Safe (handleEdit calls username fullname image) := by
  refine safe_bracket fun error _ => ?_
  cases error with
  | some _ => exact safe_hide
  | none => exact safe_done

theorem safe_didTapDone {i : Nat} {caption : String} :
    shownLoader.Safe (didTapDone calls i caption) := by
  intro app _
  show shownLoader.Careful (match app.uploads[i]? with
    | some ⟨some image, some user⟩ =>
        showLoader true >> calls.uploadPost caption image user (onUpload calls)
    | _ => .done) app
  split
  · exact careful_call (fun _ _ => mends_hide) fun error _ => safe_onUpload error
  · trivial

theorem safe_tabUser {k : User → CallBlock} (hk : ∀ user, shownLoader.Safe (k user)) :
    shownLoader.Safe (tabUser k) := by
  intro app _
  show shownLoader.Careful (match app.user with | none => .done | some user => k user) app
  cases app.user with
  | none => trivial
  | some user => exact hk user app trivial

theorem safe_inputView {i : Nat} {comment : String} :
    shownLoader.Safe (inputView calls i comment) := by
  intro app _
  show shownLoader.Careful (match app.comments[i]? with
    | none => .done
    | some ⟨post⟩ => tabUser fun currentUser =>
        showLoader true >> calls.uploadComment comment post.postId currentUser
          (onComment calls post currentUser)) app
  cases app.comments[i]? with
  | none => trivial
  | some screen =>
      refine safe_tabUser (fun currentUser app _ => ?_) app trivial
      exact careful_call (fun _ _ => mends_hide) fun _ _ _ _ =>
        careful_hide (safe_ask fun _ _ => safe_done)

theorem safe_notificationGet {i : Nat} {k : NotificationController → CallBlock}
    (hk : ∀ n, shownLoader.Safe (k n)) : shownLoader.Safe (notificationGet i k) := by
  intro app _
  show shownLoader.Careful (match app.notifications[i]? with | none => .done | some n => k n) app
  cases app.notifications[i]? with
  | none => trivial
  | some n => exact hk n app trivial

theorem safe_notificationViewModel {i c : Nat} {k : Notification → CallBlock}
    (hk : ∀ n, shownLoader.Safe (k n)) : shownLoader.Safe (notificationViewModel i c k) := by
  refine safe_notificationGet fun n => ?_
  cases n.cells c with
  | none => exact safe_done
  | some notification => exact hk notification

theorem safe_handleFollowTapped {i c : Nat} :
    shownLoader.Safe (handleFollowTapped calls i c) := by
  have htap : ∀ e, shownLoader.Safe (onTap i c e) := fun _ _ _ => careful_hide (safe_edit fun _ => rfl)
  refine safe_notificationViewModel fun notification => ?_
  split
  · exact fun app _ => careful_call (fun _ _ => mends_hide) fun e _ => htap e
  · exact fun app _ => careful_call (fun _ _ => mends_hide) fun e _ => htap e

theorem safe_handlePostTapped {i c : Nat} : shownLoader.Safe (handlePostTapped calls i c) := by
  refine safe_notificationViewModel fun notification => ?_
  cases notification.postId with
  | none => exact safe_done
  | some postId =>
      exact fun app _ => careful_call (fun _ _ => mends_hide) fun _ _ _ _ =>
        careful_hide (safe_edit fun _ => rfl)

theorem safe_didSelectRowAt {i row : Nat} : shownLoader.Safe (didSelectRowAt calls i row) := by
  refine safe_notificationGet fun n => ?_
  cases n.notifications[row]? with
  | none => exact safe_done
  | some notification =>
      exact fun app _ => careful_call (fun _ _ => mends_hide) fun _ _ _ _ =>
        careful_hide (safe_edit fun _ => rfl)

theorem safe_answerAlert {k : Nat} {yes : Bool} : shownLoader.Safe (answerAlert calls k yes) := by
  intro app _
  show shownLoader.Careful (match app.alerts[k]? with
    | none => .done
    | some (post, user) =>
        .modify (fun app => { app with alerts := app.alerts.eraseIdx k })
          (if yes then removePost calls post user else .done)) app
  cases app.alerts[k]? with
  | none => trivial
  | some alert =>
      refine careful_edit rfl ?_
      cases yes with
      | false => trivial
      | true => exact safe_bracket (fun _ _ => safe_done) _ trivial

theorem safe_block (a : Action) : shownLoader.Safe (a.block calls) := by
  cases a with
  | login => exact safe_login
  | signUp => exact fun _ _ => careful_call (fun _ h => (safe_onRegister h).1) fun _ h =>
      (safe_onRegister h).2
  | resetPassword => exact safe_resetPassword
  | editProfile => exact safe_edit_profile
  | deleteAccount => exact safe_bracket fun _ _ => safe_done
  | tapDone => exact safe_didTapDone
  | sendComment => exact safe_inputView
  | tapFollow => exact safe_handleFollowTapped
  | tapPost => exact safe_handlePostTapped
  | notificationSelect => exact safe_didSelectRowAt
  | answerAlert => exact safe_answerAlert
  | elsewhere f h => exact safe_edit h

/-! ## Runs -/

/-- No call is answered a second time. -/
def Once (_ : World loading Unit) (e : Event loading Unit) : Prop :=
  ∀ d i choice, e ≠ .notify d i choice

/-- No registration and no reset is answered with success. -/
def Remembers (w : World loading Unit) (e : Event loading Unit) : Prop :=
  Once w e ∧ ∀ d t q a srv, e.Answers w d t q a srv → forgets q a = false

variable {app : App} {w : World loading Unit}

theorem tended_of_run (hrun : Run Remembers (startWorld app) w) :
    shownLoader.Tended (w.devices ()) := by
  refine hrun.inv (fun w => shownLoader.Tended (w.devices ())) ?_ fun w e w' h hok hs => ?_
  · exact Repair.tended_of_idle rfl trivial fun _ h => by cases h
  · exact h.step hs (fun a _ => safe_block a) (fun t q a srv => hok.2 () t q a srv)
      fun i c => hok.1 () i c

/-- Every run of the actions that use the loader, in whatever order they
and the answers come: unless a registration or a reset succeeds, the loader
is hidden whenever no service call is outstanding. -/
theorem loader_hidden (hrun : Run Remembers (startWorld app) w)
    (hidle : (w.devices ()).idle = true) : (w.devices ()).loc.hud = false := by
  have hright : ¬(w.devices ()).loc.hud = true :=
    (tended_of_run hrun).not_wrong (x := ()) hidle
  exact Bool.eq_false_iff.mpr hright

/-- Surroundings that answer a registration or a reset with `error`, and
everything else with success. -/
def answering (error : Option FIRError) : Policy loading where
  env _ := ⟨"", ⟨0, 0⟩⟩
  choice _ _
    | .logUserIn .. => .ok "alice"
    | .registerUser _ => error
    | .resetPassword _ => error
    | .upDateUser .. => none
    | .deletaUser => ()
    | .uploadPost .. => none
    | .uploadComment .. => none
    | .uploadNotification .. => ()
    | .follow _ => none
    | .unfollow _ => none
    | .fetchUserWithUid uid => User.init [("uid", .string uid)]
    | .fetchUser => User.init []
    | .fetchPost postId => Post.init postId [] ⟨0, 0⟩
    | .fetchPosts => []
    | .checkIfUserLikedPost _ => false
    | .removePost .. => none

theorem once_of_pick {p : Policy loading} {w : World loading Unit} {e : Event loading Unit}
    (h : p.pick () w = some e) : Once w e := fun d i choice he => by
  obtain ⟨-, -, hnotify⟩ := Policy.pick_own h
  obtain rfl : d = () := rfl
  exact hnotify i choice he

theorem forgets_answering {q q' : ServiceCall} :
    forgets q ((answering (some .notFound)).choice q' () q) = false := by
  cases q <;> rfl

theorem remembers_of_pick {e : Event loading Unit}
    (h : (answering (some .notFound)).pick () w = some e) : Remembers w e := by
  refine ⟨once_of_pick h, fun d t q a srv hans => ?_⟩
  simp only [Policy.pick] at h
  split at h <;> cases h <;> cases hans
  next hs => cases hs; exact forgets_answering

/-- Logged in after a registration that failed. -/
def loggedIn : World loading Unit :=
  startWorld {}
    |> (answering (some .notFound)).perform ()
        (.signUp "alice@dog.kr" "secret" "Alice" "alice" ⟨some []⟩) 20
    |> (answering (some .notFound)).perform () (.login "alice@dog.kr" "secret") 20

theorem loader_hidden_loggedIn :
    Run Remembers (startWorld {}) loggedIn ∧ (loggedIn.devices ()).idle = true ∧
      (loggedIn.devices ()).loc.hud = false := by
  have hact : ∀ w a, Remembers w (.act () a) := fun w a =>
    ⟨fun _ _ _ h => (nomatch h), fun _ _ _ _ _ h => (nomatch h)⟩
  have hrun : Run Remembers (startWorld {}) loggedIn :=
    Policy.run_perform (fun w _ => remembers_of_pick) (hact _ _)
      (Policy.run_perform (fun w _ => remembers_of_pick) (hact _ _) .refl)
  have hidle : (loggedIn.devices ()).idle = true := rfl
  exact ⟨hrun, hidle, loader_hidden hrun hidle⟩

/-- The one action, and its success. -/
def succeeded (a : Action) : World loading Unit :=
  startWorld {} |> (answering none).perform () a 20

theorem succeeded_reached (a : Action) : Run Once (startWorld {}) (succeeded a) :=
  Policy.run_perform (fun _ _ => once_of_pick) (fun _ _ _ h => (nomatch h)) .refl

/-- A successful registration leaves the loader shown, and so does a
successful reset. -/
theorem loader_left_shown : ¬ ∀ (app : App) (w : World loading Unit),
    Run Once (startWorld app) w → (w.devices ()).idle = true →
      (w.devices ()).loc.hud = false := by
  intro h
  have hhidden := h {} _
    (succeeded_reached (.signUp "alice@dog.kr" "secret" "Alice" "alice" ⟨some []⟩)) rfl
  cases hhidden

example : ((succeeded (.resetPassword "alice@dog.kr")).devices ()).idle = true ∧
    ((succeeded (.resetPassword "alice@dog.kr")).devices ()).loc.hud = true := ⟨rfl, rfl⟩

end DogVillage.Loader
