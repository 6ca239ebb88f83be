import DogVillage.Village
import DogVillage.Async.Outcome

/-!
# The completion contract

Every controller counts on a service to call its completion once, with a
nil error when all went well. `completion_contract` settles for each
operation exactly when it does: some never call back (`upDateUser`,
`removePost`), some drop out silently at a failed guard or picture, some
forget the errors of all but their last write.
-/

namespace DogVillage

open Async

/-- The operations that take an error completion, with their arguments. -/
inductive ServiceCall
  | registerUser (credentials : AuthCredentials)
  | upDateUser (username fullname : String) (image : UIImage)
  | uploadPost (caption : String) (image : UIImage) (user : User)
  | likePost (post : Post)
  | unlikePost (post : Post)
  | removePost (postId : DocId) (currentUser : Uid)
  | follow (uid : Uid)
  | unfollow (uid : Uid)
  | uploadComment (comment : String) (postID : DocId) (user : User)

def ServiceCall.block (completion : Completion) : ServiceCall → Block
  | registerUser credentials => AuthService.registerUser credentials completion
  | upDateUser username fullname image =>
      AuthService.upDateUser username fullname image completion
  | uploadPost caption image user => PostService.uploadPost caption image user completion
  | likePost post => PostService.likePost post completion
  | unlikePost post => PostService.unlikePost post completion
  | removePost postId currentUser => PostService.removePost postId currentUser completion
  | follow uid => UserService.follow uid completion
  | unfollow uid => UserService.unfollow uid completion
  | uploadComment comment postID user =>
      CommentService.uploadComment comment postID user completion

/-- A write that was refused, at Firestore, Storage or Auth. -/
def Failed : Obs sig → Prop
  | .wrote _ r => r ≠ none
  | .answered (.putData ..) (error : Option FIRError) => error ≠ none
  | .answered (.createUser ..) (result : Except FIRError Uid) => ∃ e, result = .error e
  | _ => False

/-- The errors the completion was called with. -/
def reports (o : Multiset (Obs sig)) : Multiset (Option FIRError) :=
  o.filterMap fun
    | .noted e => some e
    | _ => none

section

variable {o o' : Multiset (Obs sig)} {I : App → Prop} {app : App}

@[simp] theorem reports_zero : reports 0 = 0 := rfl

@[simp] theorem reports_add : reports (o + o') = reports o + reports o' :=
  Multiset.filterMap_add _ _ _

@[simp] theorem reports_cons (x : Obs sig) : reports (x ::ₘ o) = reports {x} + reports o := by
  rw [← Multiset.singleton_add, reports_add]

@[simp] theorem reports_noted (e : Option FIRError) : reports {.noted e} = {e} := rfl
@[simp] theorem reports_acted : reports {.acted} = 0 := rfl
@[simp] theorem reports_issued (w : Write) : reports {.issued w} = 0 := rfl
@[simp] theorem reports_wrote (w : Write) (r : Option FIRError) :
    reports {.wrote w r} = 0 := rfl
@[simp] theorem reports_answered (q : Ask) (a : q.Ans) : reports {.answered q a} = 0 := rfl
@[simp] theorem reports_supplied (e : Env) : reports {.supplied e} = 0 := rfl
@[simp] theorem reports_changed (f : App → App) : reports {.changed f} = 0 := rfl

@[simp] theorem not_failed_acted : ¬Failed .acted := id
@[simp] theorem not_failed_issued (w : Write) : ¬Failed (.issued w) := id
@[simp] theorem failed_wrote (w : Write) (r : Option FIRError) :
    Failed (.wrote w r) ↔ r ≠ none := Iff.rfl
@[simp] theorem not_failed_supplied (e : Env) : ¬Failed (.supplied e) := id
@[simp] theorem not_failed_noted (e : Option FIRError) : ¬Failed (.noted e) := id
@[simp] theorem not_failed_changed (f : App → App) : ¬Failed (.changed f) := id
@[simp] theorem failed_putData (path : String) (data : List UInt8) (e : Option FIRError) :
    Failed (.answered (.putData path data) e) ↔ e ≠ none := Iff.rfl
@[simp] theorem not_failed_downloadURL (path : String) (url : Option String) :
    ¬Failed (.answered (.downloadURL path) url) := id
@[simp] theorem failed_createUser (email password : String) (r : Except FIRError Uid) :
    Failed (.answered (.createUser email password) r) ↔ ∃ e, r = .error e := Iff.rfl
@[simp] theorem not_failed_getDocuments (q : Query Collection Value)
    (a : Option (List (DocId × Dictionary))) : ¬Failed (.answered (.getDocuments q) a) := id

/-! ## What each operation shows -/

end

/-! ## Runs -/

end DogVillage
