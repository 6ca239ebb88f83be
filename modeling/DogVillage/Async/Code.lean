import Mathlib.Data.List.Basic

/-!
# Client code with callbacks

The code of a client of a remote store: a tree of the calls it makes.
A call is *issued* and the code goes on at once; its answer is given
later to the handler the call carries (a closure, here a function into
code). Blocks handed to a dispatch queue are code of their own. Values
the code computes are plain Lean values, so a function of the source
that takes a completion handler becomes a Lean function that takes the
handler and gives code.

`Code` says nothing about *when* a call is answered or a block runs;
`Async.Run` does.
-/

namespace Async

/-- What client code can ask of its surroundings. -/
structure Sig where
  /-- Writes: answered in the order they were issued. -/
  Write : Type
  /-- The error a refused write is answered with. -/
  Err : Type
  /-- Other remote calls: answered in any order. -/
  Ask : Type
  Ans : Ask → Type
  /-- What the surroundings hand out at once: fresh identifiers, the time. -/
  Env : Type
  /-- The client's own memory. -/
  Loc : Type
  /-- What the code can report to an observer. -/
  Note : Type

inductive Code (S : Sig) : Type
  | done
  | write (w : S.Write) (handler : Option S.Err → Code S) (next : Code S)
  | ask (q : S.Ask) (handler : S.Ans q → Code S) (next : Code S)
  /-- A call that may be answered any number of times. -/
  | listen (q : S.Ask) (handler : S.Ans q → Code S) (next : Code S)
  /-- A block for the concurrent queue. -/
  | global (body next : Code S)
  /-- A block for the main thread's queue. -/
  | main (body next : Code S)
  | env (k : S.Env → Code S)
  | get (k : S.Loc → Code S)
  | modify (f : S.Loc → S.Loc) (next : Code S)
  | note (n : S.Note) (next : Code S)

namespace Code

variable {S : Sig}

/-- Run `c`, then `d`: `d` goes where `c`'s own statements end, not into
the handlers and blocks of `c`. -/
def andThen : Code S → Code S → Code S
  | done, d => d
  | write w h n, d => write w h (n.andThen d)
  | ask q h n, d => ask q h (n.andThen d)
  | listen q h n, d => listen q h (n.andThen d)
  | global b n, d => global b (n.andThen d)
  | main b n, d => main b (n.andThen d)
  | env k, d => env fun v => (k v).andThen d
  | get k, d => get fun l => (k l).andThen d
  | modify f n, d => modify f (n.andThen d)
  | note m n, d => note m (n.andThen d)

instance : AndThen (Code S) := ⟨fun c d => c.andThen (d ())⟩

@[simp] theorem seq_eq (c d : Code S) : (c >> d) = c.andThen d := rfl

theorem andThen_done : ∀ c : Code S, c.andThen done = c
  | done => rfl
  | write w h n => congrArg (write w h) (andThen_done n)
  | ask q h n => congrArg (ask q h) (andThen_done n)
  | listen q h n => congrArg (listen q h) (andThen_done n)
  | global b n => congrArg (global b) (andThen_done n)
  | main b n => congrArg (main b) (andThen_done n)
  | env k => congrArg env (funext fun v => andThen_done (k v))
  | get k => congrArg get (funext fun l => andThen_done (k l))
  | modify f n => congrArg (modify f) (andThen_done n)
  | note m n => congrArg (note m) (andThen_done n)

/-- The statements of `f a` for every `a` of the list, in order. -/
def forEach {α : Type} (l : List α) (f : α → Code S) : Code S :=
  match l with
  | [] => done
  | a :: l => (f a).andThen (forEach l f)

/-- The code as the main thread runs it from memory `l`: only blocks of
the main thread change the memory, and they run one after the other, so
what a block reads is settled when it starts. -/
def start (l : S.Loc) : Code S → Code S
  | done => done
  | write w h n => write w h (n.start l)
  | ask q h n => ask q h (n.start l)
  | listen q h n => listen q h (n.start l)
  | global b n => global b (n.start l)
  | main b n => main b (n.start l)
  | env k => env fun v => (k v).start l
  | get k => (k l).start l
  | modify f n => modify f (n.start (f l))
  | note m n => note m (n.start l)

/-! ## Footprints -/

/-- Whatever becomes of it, the code only issues writes that meet `P`. -/
def Writes (P : S.Write → Prop) : Code S → Prop
  | done => True
  | write w h n => P w ∧ (∀ r, (h r).Writes P) ∧ n.Writes P
  | ask _ h n => (∀ a, (h a).Writes P) ∧ n.Writes P
  | listen _ h n => (∀ a, (h a).Writes P) ∧ n.Writes P
  | global b n => b.Writes P ∧ n.Writes P
  | main b n => b.Writes P ∧ n.Writes P
  | env k => ∀ v, (k v).Writes P
  | get k => ∀ l, (k l).Writes P
  | modify _ n => n.Writes P
  | note _ n => n.Writes P

/-- The write is one the code may come to issue. -/
def Issues (v : S.Write) : Code S → Prop
  | done => False
  | write w h n => w = v ∨ (∃ r, (h r).Issues v) ∨ n.Issues v
  | ask _ h n => (∃ a, (h a).Issues v) ∨ n.Issues v
  | listen _ h n => (∃ a, (h a).Issues v) ∨ n.Issues v
  | global b n => b.Issues v ∨ n.Issues v
  | main b n => b.Issues v ∨ n.Issues v
  | env k => ∃ e, (k e).Issues v
  | get k => ∃ l, (k l).Issues v
  | modify _ n => n.Issues v
  | note _ n => n.Issues v

variable {P Q : S.Write → Prop}

theorem Writes.of_issues {v : S.Write} : ∀ {c : Code S}, c.Writes P → c.Issues v → P v
  | write .., h, .inl hv => hv ▸ h.1
  | write .., h, .inr (.inl ⟨r, hv⟩) => (h.2.1 r).of_issues hv
  | write .., h, .inr (.inr hv) => h.2.2.of_issues hv
  | ask .., h, .inl ⟨a, hv⟩ => (h.1 a).of_issues hv
  | ask .., h, .inr hv => h.2.of_issues hv
  | listen .., h, .inl ⟨a, hv⟩ => (h.1 a).of_issues hv
  | listen .., h, .inr hv => h.2.of_issues hv
  | global .., h, .inl hv => h.1.of_issues hv
  | global .., h, .inr hv => h.2.of_issues hv
  | main .., h, .inl hv => h.1.of_issues hv
  | main .., h, .inr hv => h.2.of_issues hv
  | env _, h, ⟨e, hv⟩ => (h e).of_issues hv
  | get _, h, ⟨l, hv⟩ => (h l).of_issues hv
  | modify _ n, h, hv => Writes.of_issues (c := n) h hv
  | note _ n, h, hv => Writes.of_issues (c := n) h hv

theorem Writes.mono (hPQ : ∀ w, P w → Q w) : ∀ {c : Code S}, c.Writes P → c.Writes Q
  | done, _ => trivial
  | write .., h => ⟨hPQ _ h.1, fun r => (h.2.1 r).mono hPQ, h.2.2.mono hPQ⟩
  | ask .., h => ⟨fun a => (h.1 a).mono hPQ, h.2.mono hPQ⟩
  | listen .., h => ⟨fun a => (h.1 a).mono hPQ, h.2.mono hPQ⟩
  | global .., h => ⟨h.1.mono hPQ, h.2.mono hPQ⟩
  | main .., h => ⟨h.1.mono hPQ, h.2.mono hPQ⟩
  | env _, h => fun v => (h v).mono hPQ
  | get _, h => fun l => (h l).mono hPQ
  | modify _ n, h => Writes.mono (c := n) hPQ h
  | note _ n, h => Writes.mono (c := n) hPQ h

theorem Writes.andThen {d : Code S} (hd : d.Writes P) : ∀ {c : Code S}, c.Writes P →
    (c.andThen d).Writes P
  | done, _ => hd
  | write .., h => ⟨h.1, h.2.1, hd.andThen h.2.2⟩
  | ask .., h => ⟨h.1, hd.andThen h.2⟩
  | listen .., h => ⟨h.1, hd.andThen h.2⟩
  | global .., h => ⟨h.1, hd.andThen h.2⟩
  | main .., h => ⟨h.1, hd.andThen h.2⟩
  | env _, h => fun v => hd.andThen (h v)
  | get _, h => fun l => hd.andThen (h l)
  | modify _ n, h => hd.andThen (c := n) h
  | note _ n, h => hd.andThen (c := n) h

theorem Writes.forEach {α : Type} {f : α → Code S} :
    ∀ {l : List α}, (∀ a ∈ l, (f a).Writes P) → (forEach l f).Writes P
  | [], _ => trivial
  | _ :: _, h =>
      (Writes.forEach fun b hb => h b (List.mem_cons_of_mem _ hb)).andThen
        (h _ List.mem_cons_self)

theorem Writes.start : ∀ {c : Code S} {l : S.Loc}, c.Writes P → (c.start l).Writes P
  | done, _, _ => trivial
  | write .., _, h => ⟨h.1, h.2.1, h.2.2.start⟩
  | ask .., _, h => ⟨h.1, h.2.start⟩
  | listen .., _, h => ⟨h.1, h.2.start⟩
  | global .., _, h => ⟨h.1, h.2.start⟩
  | main .., _, h => ⟨h.1, h.2.start⟩
  | env _, _, h => fun v => (h v).start
  | get _, l, h => (h l).start
  | modify _ n, _, h => Writes.start (c := n) h
  | note _ n, _, h => Writes.start (c := n) h

end Code

end Async
