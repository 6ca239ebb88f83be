import DogVillage.Async.Run
import DogVillage.Model

/-!
# Firestore, Auth and Storage, and the app's memory

The collections the app uses, the calls it makes, and the state of the
server behind them: the documents, the Auth accounts and the identifiers
handed out so far. A subcollection such as `posts/p/post-likes` is a
collection of its own (`.postLikes p`); deleting `posts/p` leaves it.

A device's writes are settled in the order it issued them, whoever is signed
in by then (the SDK keeps a queue for each account), and a query is answered
from the documents alone, without the device's own outstanding writes.

`App` is what one device keeps in memory: Auth's `currentUser`, the user
cached by the tab controller, and the screens, each under its index.
-/

namespace DogVillage

open Async

inductive Collection
  | users
  | posts
  /-- `following/uid/user-following` -/
  | userFollowing (uid : Uid)
  /-- `followers/uid/user-followers` -/
  | userFollowers (uid : Uid)
  /-- `posts/postId/post-likes` -/
  | postLikes (postId : DocId)
  /-- `posts/postId/comments` -/
  | comments (postId : DocId)
  /-- `users/uid/user-likes` -/
  | userLikes (uid : Uid)
  /-- `users/uid/user-feed` -/
  | userFeed (uid : Uid)
  /-- `notifications/uid/user-notifications` -/
  | userNotifications (uid : Uid)
deriving DecidableEq, Repr

abbrev Write := DocWrite Collection Value

inductive FIRError
  | notFound
  | emailAlreadyInUse
  | userNotFound
  | other (code : Nat)
deriving DecidableEq, Repr

inductive Ask
  | getDocument (r : Ref Collection)
  | getDocuments (q : Query Collection Value)
  | putData (path : String) (data : List UInt8)
  | downloadURL (path : String)
  | createUser (email password : String)
  | signIn (email password : String)
  | sendPasswordReset (email : String)
  | deleteAccount (uid : Uid)
deriving DecidableEq, Repr

/-- What the handler is given. A failed read has no snapshot; a snapshot of
a missing document has no data. -/
@[reducible] def Ask.Ans : Ask → Type
  | getDocument _ => Option (Option Dictionary)
  | getDocuments _ => Option (List (DocId × Dictionary))
  | putData _ _ => Option FIRError
  | downloadURL _ => Option String
  | createUser _ _ => Except FIRError Uid
  | signIn _ _ => Except FIRError Uid
  | sendPasswordReset _ => Option FIRError
  | deleteAccount _ => Option FIRError

/-- `NSUUID().uuidString` or the id of a new document, and `Date()`. -/
structure Env where
  uuid : String
  now : Timestamp
deriving DecidableEq, Repr

/-! ## The screens -/

structure FeedController where
  posts : List Post := []
  /-- The one post of a detail screen. -/
  post : Option Post := none
  /-- `viewModel?.post` of every (reusable) cell. -/
  cells : Nat → Option Post := fun _ => none
  /-- The row each cell was given since the view was last reloaded. -/
  rows : Nat → Option Nat := fun _ => none

structure ProfileController where
  user : User
  posts : List Post := []
  /-- `viewModel?.user` of the header. -/
  header : Option User := none

structure NotificationController where
  notifications : List Notification := []
  /-- `viewModel?.notification` of every (reusable) cell. -/
  cells : Nat → Option Notification := fun _ => none
  /-- The row each cell was given since the table was last reloaded. -/
  rows : Nat → Option Nat := fun _ => none

structure SearchController where
  users : List User := []
  posts : List Post := []

structure CommentController where
  post : Post

structure UploadPostController where
  selectedImage : Option UIImage
  currentUser : Option User

structure App where
  /-- `Auth.auth().currentUser?.uid` -/
  currentUser : Option Uid := none
  /-- `MainTabController.user` -/
  user : Option User := none
  /-- Is `UIViewController.hud` shown? -/
  hud : Bool := false
  feeds : List FeedController := []
  profiles : List ProfileController := []
  notifications : List NotificationController := []
  searches : List SearchController := []
  comments : List CommentController := []
  uploads : List UploadPostController := []
  /-- The removal alerts on display: the post, and the user the "yes"
  action captured. -/
  alerts : List (Post × User) := []
  /-- The `FeedController` of the first tab. -/
  tabFeed : Option Nat := none

@[reducible] def sig : Sig where
  Write := Write
  Err := FIRError
  Ask := Ask
  Ans := Ask.Ans
  Env := Env
  Loc := App
  Note := Option FIRError

theorem nonempty_ans (q : sig.Ask) : Nonempty (sig.Ans q) := by
  cases q <;> exact inferInstance

theorem nonempty_env : Nonempty sig.Env := ⟨⟨"", ⟨0, 0⟩⟩⟩

/-- A block of app code. -/
abbrev Block := Code sig

/-! ## The server -/

structure Account where
  uid : Uid
  email : String
  password : String
deriving DecidableEq, Repr

structure Server where
  docs : Documents Collection Value := Documents.empty
  accounts : List Account := []
  /-- Every uid, document id and file name handed out so far. -/
  used : List String := []

namespace Server

def apply (w : Write) (s : Server) : Except FIRError Server :=
  match Documents.apply w s.docs with
  | some docs => .ok { s with docs := docs }
  | none => .error .notFound

def supply (e : Env) (s : Server) : Option Server :=
  if e.uuid ∈ s.used then none else some { s with used := e.uuid :: s.used }

/-- How a call turns out as far as the state leaves it open: it fails, or it
succeeds, with a new uid or download URL where it returns one. -/
inductive Choice
  | ok
  | fail (e : FIRError)
  | uid (u : Uid)
  | url (s : String)
deriving DecidableEq, Repr

def serve : (q : Ask) → Choice → Server → Option (q.Ans × Server)
  | .getDocument r, .ok, s => some (some (s.docs.get r), s)
  | .getDocument _, .fail _, s => some (none, s)
  | .getDocuments q, .ok, s => some (some (s.docs.select q), s)
  | .getDocuments _, .fail _, s => some (none, s)
  | .putData _ _, .ok, s => some (none, s)
  | .putData _ _, .fail e, s => some (some e, s)
  | .downloadURL _, .url u, s => some (some u, s)
  | .downloadURL _, .fail _, s => some (none, s)
  | .createUser email password, .uid u, s =>
      if s.accounts.any (·.email == email) then some (.error .emailAlreadyInUse, s)
      else if u ∈ s.used then none
      else some (.ok u, { s with
        accounts := ⟨u, email, password⟩ :: s.accounts, used := u :: s.used })
  | .createUser _ _, .fail e, s => some (.error e, s)
  | .signIn email password, .ok, s =>
      match s.accounts.find? fun a => a.email == email && a.password == password with
      | some a => some (.ok a.uid, s)
      | none => some (.error .userNotFound, s)
  | .signIn _ _, .fail e, s => some (.error e, s)
  | .sendPasswordReset _, .ok, s => some (none, s)
  | .sendPasswordReset _, .fail e, s => some (some e, s)
  | .deleteAccount uid, .ok, s =>
      if s.accounts.any (·.uid == uid) then
        some (none, { s with accounts := s.accounts.filter (·.uid != uid) })
      else some (some .userNotFound, s)
  | .deleteAccount _, .fail e, s => some (some e, s)
  | _, _, _ => none

end Server

end DogVillage
