import SmallLisp.Reader.State

/-! Reading a text: the machine of `Reader.State` run over all its characters. -/

namespace SmallLisp.Reader

/-- The state after a text. -/
def run (s : State) (cs : List Char) : Except ReadError State :=
  cs.foldlM State.step s

@[simp] theorem run_nil (s : State) : run s [] = .ok s := rfl

@[simp] theorem run_cons (s : State) (c : Char) (cs : List Char) :
    run s (c :: cs) = s.step c >>= (run · cs) := rfl

theorem run_append (s : State) (cs ds : List Char) :
    run s (cs ++ ds) = run s cs >>= (run · ds) := by
  induction cs generalizing s with
  | nil => rfl
  | cons c cs ih =>
    simp only [List.cons_append, run_cons, bind_assoc]
    congr 1
    exact funext ih

/-- The top-level data of a text, or the first error in it. -/
def readChars (cs : List Char) : Except ReadError (List Datum) :=
  run .initial cs >>= State.finish

end SmallLisp.Reader

namespace SmallLisp

/-- The top-level data of a source text. -/
def read (source : String) : Except ReadError (List Datum) :=
  Reader.readChars source.toList

end SmallLisp
