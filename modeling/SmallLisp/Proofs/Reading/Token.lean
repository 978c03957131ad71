import SmallLisp.Datum
import SmallLisp.Reader.Position

/-!
# Tokens

The tokens of a tree are its brackets and atoms in the order of its text. A stack machine builds
trees from tokens: it builds every tree from its own tokens (`Stack.feedAll_tokens`), and what it
has built has the tokens that it was fed (`Stack.tokens_feedAll`).
-/

namespace SmallLisp

/-- A datum that is no list. -/
inductive Atom where
  | number (literal : String) (kind : NumberKind)
  | string (value : String)
  | symbol (name : String)

def Atom.datum : Atom → Datum
  | .number literal kind => .number literal kind
  | .string value => .string value
  | .symbol name => .symbol name

/-- A piece of the text of a datum. -/
inductive Token where
  | opening (b : Bracket)
  | closing (b : Bracket)
  | atom (a : Atom)

namespace Datum

mutual

def tokens : Datum → List Token
  | .call callee args =>
    .opening .round :: (callee.tokens ++ tokensAll args ++ [.closing .round])
  | .vector elements => .opening .square :: (tokensAll elements ++ [.closing .square])
  | .number literal kind => [.atom (.number literal kind)]
  | .string value => [.atom (.string value)]
  | .symbol name => [.atom (.symbol name)]

def tokensAll : List Datum → List Token
  | [] => []
  | d :: ds => d.tokens ++ tokensAll ds

end

mutual

/-- The datum and all data in it, each before its parts. -/
def nodes : Datum → List Datum
  | .call callee args => .call callee args :: (callee.nodes ++ nodesAll args)
  | .vector elements => .vector elements :: nodesAll elements
  | .number literal kind => [.number literal kind]
  | .string value => [.string value]
  | .symbol name => [.symbol name]

def nodesAll : List Datum → List Datum
  | [] => []
  | d :: ds => d.nodes ++ nodesAll ds

end

theorem tokensAll_append (ds es : List Datum) :
    tokensAll (ds ++ es) = tokensAll ds ++ tokensAll es := by
  induction ds with
  | nil => rfl
  | cons d ds ih => simp [tokensAll, ih]

theorem tokensAll_singleton (d : Datum) : tokensAll [d] = d.tokens := List.append_nil _

@[simp] theorem tokens_datum (a : Atom) : a.datum.tokens = [.atom a] := by
  cases a <;> rfl

mutual

theorem atom_mem_tokens {a : Atom} : ∀ {d : Datum}, .atom a ∈ d.tokens ↔ a.datum ∈ d.nodes
  | .call callee args => by
    cases a <;> simp [tokens, nodes, atom_mem_tokens, atom_mem_tokensAll, Atom.datum]
  | .vector elements => by
    cases a <;> simp [tokens, nodes, atom_mem_tokensAll, Atom.datum]
  | .number .. | .string _ | .symbol _ => by
    cases a <;> simp [tokens, nodes, Atom.datum]

theorem atom_mem_tokensAll {a : Atom} :
    ∀ {ds : List Datum}, .atom a ∈ tokensAll ds ↔ a.datum ∈ nodesAll ds
  | [] => by simp [tokensAll, nodesAll]
  | d :: ds => by simp [tokensAll, nodesAll, atom_mem_tokens, atom_mem_tokensAll]

end

end Datum

open Datum

/-- The list that a pair of brackets makes of the data between them. -/
def Bracket.enclose? : Bracket → List Datum → Option Datum
  | .square, elements => some (.vector elements)
  | .round, callee :: args => some (.call callee args)
  | .round, [] => none

theorem Bracket.tokens_enclose? {b : Bracket} {ds : List Datum} {d : Datum}
    (h : b.enclose? ds = some d) : d.tokens = .opening b :: (tokensAll ds ++ [.closing b]) := by
  unfold enclose? at h
  split at h <;> cases h <;> rfl

/-- Trees under construction: the open lists, each with its bracket and the data before it, the
innermost first; and the data of the innermost one. Of the data, the last one comes first. -/
structure Stack where
  outer : List (Bracket × List Datum)
  items : List Datum

namespace Stack

def empty : Stack := ⟨[], []⟩

def push (s : Stack) (a : Atom) : Stack := ⟨s.outer, a.datum :: s.items⟩

def feed (s : Stack) : Token → Option Stack
  | .opening b => some ⟨(b, s.items) :: s.outer, []⟩
  | .closing b =>
    match s.outer with
    | [] => none
    | (opener, before) :: outer =>
      if opener = b then
        (b.enclose? s.items.reverse).map fun d => ⟨outer, d :: before⟩
      else
        none
  | .atom a => some (s.push a)

def feedAll (s : Stack) (ts : List Token) : Option Stack := ts.foldlM feed s

@[simp] theorem feedAll_nil (s : Stack) : s.feedAll [] = some s := rfl

@[simp] theorem feedAll_cons (s : Stack) (t : Token) (ts : List Token) :
    s.feedAll (t :: ts) = (s.feed t).bind (·.feedAll ts) := rfl

theorem feedAll_append (s : Stack) (ts us : List Token) :
    s.feedAll (ts ++ us) = (s.feedAll ts).bind (·.feedAll us) := by
  simp [feedAll, List.foldlM_append]

theorem feedAll_append_of_eq_some {s t : Stack} {ts us : List Token}
    (h : s.feedAll ts = some t) : s.feedAll (ts ++ us) = t.feedAll us := by
  rw [feedAll_append, h, Option.bind_some]

/-! ## Building a tree from its tokens -/

theorem feed_closing {b : Bracket} {before items : List Datum} {d : Datum}
    {outer : List (Bracket × List Datum)} (h : b.enclose? items.reverse = some d) :
    feed ⟨(b, before) :: outer, items⟩ (.closing b) = some ⟨outer, d :: before⟩ := by
  simp [feed, h]

mutual

theorem feedAll_tokens : ∀ (d : Datum) (s : Stack),
    s.feedAll d.tokens = some ⟨s.outer, d :: s.items⟩
  | .call callee args, s => by
    have hclose : Bracket.enclose? .round (args.reverse ++ [callee]).reverse =
        some (.call callee args) := by
      simp [Bracket.enclose?]
    rw [Datum.tokens, feedAll_cons, feed, Option.bind_some, List.append_assoc,
      feedAll_append_of_eq_some (feedAll_tokens callee _),
      feedAll_append_of_eq_some (feedAll_tokensAll args _), feedAll_cons, feed_closing hclose]
    rfl
  | .vector elements, s => by
    have hclose : Bracket.enclose? .square (elements.reverse ++ []).reverse =
        some (.vector elements) := by
      simp [Bracket.enclose?]
    rw [Datum.tokens, feedAll_cons, feed, Option.bind_some,
      feedAll_append_of_eq_some (feedAll_tokensAll elements _), feedAll_cons,
      feed_closing hclose]
    rfl
  | .number .., _ | .string _, _ | .symbol _, _ => rfl

theorem feedAll_tokensAll : ∀ (ds : List Datum) (s : Stack),
    s.feedAll (tokensAll ds) = some ⟨s.outer, ds.reverse ++ s.items⟩
  | [], s => rfl
  | d :: ds, s => by
    rw [Datum.tokensAll, feedAll_append_of_eq_some (feedAll_tokens d s), feedAll_tokensAll ds]
    simp

end

/-! ## Tokens of a stack -/

def outerTokens : List (Bracket × List Datum) → List Token
  | [] => []
  | (b, before) :: outer => outerTokens outer ++ tokensAll before.reverse ++ [.opening b]

/-- The tokens that a stack was built from. -/
def tokens (s : Stack) : List Token := outerTokens s.outer ++ tokensAll s.items.reverse

theorem tokens_feed {s t : Stack} {u : Token} (h : s.feed u = some t) :
    t.tokens = s.tokens ++ [u] := by
  cases u with
  | opening b =>
    cases h
    simp [tokens, outerTokens, tokensAll]
  | atom a =>
    cases h
    simp [tokens, push, tokensAll_append, tokensAll_singleton]
  | closing b =>
    simp only [feed] at h
    split at h
    · cases h
    · rename_i opener before outer houter
      split at h
      · rename_i hb
        obtain ⟨d, hd, rfl⟩ := Option.map_eq_some_iff.1 h
        simp [tokens, houter, outerTokens, hb, tokensAll_append, tokensAll_singleton,
          Bracket.tokens_enclose? hd]
      · cases h

theorem tokens_feedAll {s t : Stack} {ts : List Token} (h : s.feedAll ts = some t) :
    t.tokens = s.tokens ++ ts := by
  induction ts generalizing s with
  | nil =>
    cases h
    rw [List.append_nil]
  | cons u ts ih =>
    obtain ⟨r, hr, h⟩ := Option.bind_eq_some_iff.1 h
    rw [ih h, tokens_feed hr, List.append_assoc, List.singleton_append]

/-- Data that were built from tokens have these tokens. -/
theorem eq_tokensAll {ts : List Token} {ds : List Datum}
    (h : empty.feedAll ts = some ⟨[], ds.reverse⟩) : tokensAll ds = ts := by
  simpa [tokens, outerTokens, tokensAll, empty] using tokens_feedAll h

end Stack

end SmallLisp
