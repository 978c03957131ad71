import SmallLisp.Proofs.Emitted
import SmallLisp.Proofs.Meaning.Datum

/-!
# Tail-recursive data

The data whose meaning is kept: `Fits cfg names k d` says that all names of `d` are among `names`,
that `d` binds one name at a time and none that is translated to a reserved name, and that each
`recur` in it is in tail position of its loop. The parameter `k` has the names of the loop that `d`
itself is in tail position of, if there is one. What is emitted for them keeps the names apart that
it has to (`Naming`), and hides none of those that the emitted text refers to on its own account
(`Unreserved`).
-/

namespace SmallLisp

open Program

variable {cfg : Config} {names : List String}

namespace Config

/-- The names that emitted text refers to on its own account, and the blank one: a variable of such
a name would not be seen, or would hide what is meant. -/
def reserved (cfg : Config) : List String :=
  ["_", "nil", "true", "false", cfg.corePackage] ++ (cfg.coreFunction "get").root?.toList

theorem blank_mem_reserved (cfg : Config) : "_" ∈ cfg.reserved := by simp [reserved]

theorem nil_mem_reserved (cfg : Config) : "nil" ∈ cfg.reserved := by simp [reserved]

theorem true_mem_reserved (cfg : Config) : "true" ∈ cfg.reserved := by simp [reserved]

theorem false_mem_reserved (cfg : Config) : "false" ∈ cfg.reserved := by simp [reserved]

theorem core_mem_reserved (cfg : Config) : cfg.corePackage ∈ cfg.reserved := by simp [reserved]

end Config

/-- One name to each binding, no name twice, and none that is translated to a reserved one. -/
structure Binding.Plain (cfg : Config) (names : List String) (bs : List (Binding Datum)) :
    Prop where
  single : ∀ b ∈ bs, ∃ x ∈ names, b.targets = [x]
  nodup : (Binding.names bs).Nodup
  unreserved : ∀ x ∈ Binding.names bs, Identifier.ofName x ∉ cfg.reserved

section

variable (cfg names)

mutual

inductive Fits : Option (List String) → Datum → Prop where
  | symbol : x ∈ names → Fits k (.symbol x)
  | number : Fits k (.number literal kind)
  | string : Fits k (.string value)
  | vector : (∀ d ∈ ds, Fits none d) → Fits k (.vector ds)
  | call : Form.ofCall callee args = .ok f → FitsForm k f → Fits k (.call callee args)

inductive FitsForm : Option (List String) → Form → Prop where
  | call : x ∈ names → (∀ d ∈ ds, Fits none d) → FitsForm k (.call (.symbol x) ds)
  | not : Fits none d → FitsForm k (.not d)
  | operator : (∀ d ∈ ds, Fits none d) → FitsForm k (.operator op ds)
  | logic : Fits none d → (∀ d ∈ ds, Fits none d) → FitsForm k (.logic op d ds)
  | loop : Binding.Plain cfg names bs → (∀ b ∈ bs, Fits none b.value) → (∀ d ∈ ds, Fits none d) →
    Fits (some (Binding.names bs)) d → FitsForm k (.loop bs ds d)
  | recur : (∀ d ∈ ds, Fits none d) → FitsForm (some xs) (.recur ds)
  | get : (∀ d ∈ ds, Fits none d) → FitsForm k (.get ds)
  | letIn : Binding.Plain cfg names bs → (∀ b ∈ bs, Fits none b.value) → (∀ d ∈ ds, Fits none d) →
    Fits none d → FitsForm k (.letIn bs ds d)
  /-- On the way to a `recur` the names of its loop are not bound again. -/
  | letTail : Binding.Plain cfg names bs → (∀ b ∈ bs, Fits none b.value) →
    (∀ d ∈ ds, Fits none d) → (∀ x ∈ Binding.names bs, x ∉ xs) → Fits (some xs) d →
    FitsForm (some xs) (.letIn bs ds d)
  | cond : Fits none test → Fits k yes → (∀ d ∈ no, Fits k d) → FitsForm k (.cond test yes no)

end

end

/-- Names without slashes that are translated to different identifiers. -/
structure Naming (names : List String) : Prop where
  plain : ∀ x ∈ names, '/' ∉ x.toList
  injective : ∀ x ∈ names, ∀ y ∈ names, Identifier.ofName x = Identifier.ofName y → x = y

theorem Naming.ofName (hn : Naming names) (hx : x ∈ names) :
    Expr.ofName x = .ident (Identifier.ofName x) := by
  rw [Expr.ofName, Text.split_of_not_mem (hn.plain x hx)]

theorem Naming.root? (hn : Naming names) (hx : x ∈ names) :
    (Expr.ofName x).root? = some (Identifier.ofName x) := by
  rw [hn.ofName hx]
  rfl

theorem Naming.ofName_not_mem (hn : Naming names) {xs : List String} (hxs : xs ⊆ names)
    (hx : x ∈ names) (hnew : x ∉ xs) : Identifier.ofName x ∉ xs.map Identifier.ofName := by
  intro hmem
  obtain ⟨y, hy, heq⟩ := List.mem_map.1 hmem
  exact hnew (hn.injective y (hxs hy) x hx heq ▸ hy)

theorem Naming.targets (hn : Naming names) {xs : List String} (hxs : xs ⊆ names) :
    (xs.map Expr.ofName).mapM Expr.name? = some (xs.map Identifier.ofName) := by
  induction xs with
  | nil => rfl
  | cons x xs ih =>
    have ih := ih fun y hy => hxs (.tail _ hy)
    simp [List.mapM_cons, hn.ofName (hxs (.head _)), Expr.name?, ih]

theorem generated_not_mem {x : String} (hx : Identifier.IsGenerated x) (xs : List String) :
    x ∉ xs.map Identifier.ofName := by
  intro hmem
  obtain ⟨y, _, rfl⟩ := List.mem_map.1 hmem
  exact Identifier.not_isGenerated_ofName y hx

namespace Binding.Plain

theorem subset {bs : List (Binding Datum)} (hp : Plain cfg names bs) :
    Binding.names bs ⊆ names := by
  intro x hx
  obtain ⟨b, hb, hx⟩ := List.mem_flatMap.1 hx
  obtain ⟨y, hy, ht⟩ := hp.single b hb
  rw [ht] at hx
  obtain rfl := List.mem_singleton.1 hx
  exact hy

theorem head {b : Binding Datum} {bs : List (Binding Datum)} (hp : Plain cfg names (b :: bs)) :
    ∃ x ∈ names, b.targets = [x] ∧ x ∉ Binding.names bs := by
  obtain ⟨x, hx, ht⟩ := hp.single b (.head _)
  have hnodup := hp.nodup
  rw [Binding.names, List.flatMap_cons, ht] at hnodup
  exact ⟨x, hx, ht, (List.nodup_cons.1 hnodup).1⟩

theorem tail {b : Binding Datum} {bs : List (Binding Datum)} (hp : Plain cfg names (b :: bs)) :
    Plain cfg names bs where
  single c hc := hp.single c (.tail _ hc)
  nodup := (List.nodup_append.1 hp.nodup).2.1
  unreserved _ hx := hp.unreserved _ (List.mem_append_right b.targets hx)

theorem targets {bs : List (Binding Datum)} (hp : Plain cfg names bs) :
    bs.map (·.targets) = (Binding.names bs).map ([·]) := by
  induction bs with
  | nil => rfl
  | cons b bs ih =>
    obtain ⟨x, _, ht, _⟩ := hp.head
    have hnames : Binding.names (b :: bs) = x :: Binding.names bs :=
      congrArg (· ++ Binding.names bs) ht
    rw [List.map_cons, ih hp.tail, ht, hnames, List.map_cons]

end Binding.Plain

/-- The name of the variable that says whether another pass follows. -/
abbrev Loop.flagName (l : Loop) : String := Identifier.generated "continue" l.number

theorem Loop.isGenerated_flagName (l : Loop) : Identifier.IsGenerated l.flagName := .flag _

theorem Loop.isGenerated_resultName (l : Loop) : Identifier.IsGenerated l.resultName := .result _

namespace Config

/-- None of the variables declared in these items has a reserved name. -/
def Unreserved (cfg : Config) (is : List (Place × Item)) : Prop :=
  ∀ i ∈ is, ∀ x ∈ i.2.declared, x ∉ cfg.reserved

namespace Unreserved

variable {cfg : Config} {is js : List (Place × Item)} {p : Place} {c : Bool} {kind : BlockKind}
  {before ss : List Stmt} {s : Stmt}

theorem left (hu : cfg.Unreserved (is ++ js)) : cfg.Unreserved is :=
  fun i hi => hu i (List.mem_append_left _ hi)

theorem right (hu : cfg.Unreserved (is ++ js)) : cfg.Unreserved js :=
  fun i hi => hu i (List.mem_append_right _ hi)

theorem tail (hu : cfg.Unreserved (i :: is)) : cfg.Unreserved is :=
  fun i hi => hu i (.tail _ hi)

theorem declared (hu : cfg.Unreserved (Stmt.itemsAll kind before p (s :: ss)))
    (hx : x ∈ s.declared) : x ∉ cfg.reserved := hu _ (.head _) x hx

theorem stmt (hu : cfg.Unreserved (Stmt.itemsAll kind before p (s :: ss))) :
    cfg.Unreserved (s.items (⟨kind, before⟩ :: p)) := hu.left.tail

theorem stmts (hu : cfg.Unreserved (Stmt.itemsAll kind before p (s :: ss))) :
    cfg.Unreserved (Stmt.itemsAll kind (before ++ [s]) p ss) := hu.right

theorem closure (hu : cfg.Unreserved ((cfg.closure ss).items p c)) :
    cfg.Unreserved (Stmt.itemsAll cfg.called [] p ss) := hu.left.tail

theorem append (hu : cfg.Unreserved (Stmt.itemsAll kind before p (ss ++ ts))) :
    cfg.Unreserved (Stmt.itemsAll kind before p ss) ∧
      cfg.Unreserved (Stmt.itemsAll kind (before ++ ss) p ts) := by
  rw [Stmt.itemsAll_append] at hu
  exact ⟨hu.left, hu.right⟩

end Unreserved

end Config

/-- No variable declared in the expression has a reserved name. -/
def Config.Safe (cfg : Config) (e : Expr) : Prop := ∃ p c, cfg.Unreserved (e.items p c)

namespace Config.Unreserved

variable {cfg : Config} {p : Place} {kind : BlockKind} {before : List Stmt}

theorem all {ts : List Term} (hu : cfg.Unreserved (Expr.itemsAll p (Term.emitAll cfg ts))) :
    ∀ t ∈ ts, cfg.Safe (t.emit cfg) := by
  induction ts with
  | nil => exact nofun
  | cons t ts ih => exact List.forall_mem_cons.2 ⟨⟨_, _, hu.left⟩, ih hu.right⟩

theorem effects {ts : List Term}
    (hu : cfg.Unreserved (Stmt.itemsAll kind before p (Term.emitEffects cfg ts))) :
    ∀ t ∈ ts, cfg.Safe (t.emit cfg) := by
  induction ts generalizing before with
  | nil => exact nofun
  | cons t ts ih => exact List.forall_mem_cons.2 ⟨⟨_, _, hu.stmt⟩, ih hu.stmts⟩

theorem bindings {cs : List (Binding Term)}
    (hu : cfg.Unreserved (Stmt.itemsAll kind before p (Term.emitBindings cfg cs))) :
    ∀ c ∈ cs, cfg.Safe (c.value.emit cfg) := by
  induction cs generalizing before with
  | nil => exact nofun
  | cons c cs ih => exact List.forall_mem_cons.2 ⟨⟨_, _, hu.stmt.right.left⟩, ih hu.stmts⟩

theorem ret {e : Expr} (hu : cfg.Unreserved (Stmt.itemsAll kind before p [.ret [e]])) :
    cfg.Safe e := ⟨_, _, hu.stmt.left⟩

theorem loop {l : Loop} {ss : List Stmt} {ts : List Term} {e : Expr}
    (hu : cfg.Unreserved
      (Stmt.itemsAll kind before p (l.passes cfg ss (Term.emitEffects cfg ts) e))) :
    cfg.Unreserved (Stmt.itemsAll kind before p ss) ∧ l.resultName ∉ cfg.reserved ∧
      l.flagName ∉ cfg.reserved ∧ (∀ t ∈ ts, cfg.Safe (t.emit cfg)) ∧ cfg.Safe e := by
  obtain ⟨hss, hu⟩ := hu.append
  have hresult : l.resultName ∉ cfg.reserved := hu.declared (.head _)
  have hloop := hu.stmts.stmt
  have hflag : l.flagName ∉ cfg.reserved := hloop.left.left.left _ (.head _) _ (.head _)
  obtain ⟨hts, hset⟩ := hloop.right.stmts.append
  exact ⟨hss, hresult, hflag, hts.effects, _, _, hset.stmt.right.left⟩

private theorem assigns {ts : List Term} {xss : List (List String)}
    (hlen : ts.length = xss.length)
    (hu : cfg.Unreserved (Stmt.itemsAll kind before p (xss.zipWith
      (fun names value => .assign .assign (names.map Expr.ofName) [value])
      (Term.emitAll cfg ts)))) : ∀ t ∈ ts, cfg.Safe (t.emit cfg) := by
  induction ts generalizing xss before with
  | nil => exact nofun
  | cons t ts ih =>
    cases xss with
    | nil => cases hlen
    | cons xs xss =>
      exact List.forall_mem_cons.2
        ⟨⟨_, _, hu.stmt.right.left⟩, ih (Nat.succ.inj hlen) hu.stmts⟩

theorem update {l : Loop} {ts : List Term} (hlen : ts.length = l.targets.length)
    (hu : cfg.Unreserved (Stmt.itemsAll kind before p (l.update (Term.emitAll cfg ts)))) :
    ∀ t ∈ ts, cfg.Safe (t.emit cfg) := by
  unfold Loop.update at hu
  split at hu
  · split at hu
    · rename_i hnil
      rw [List.isEmpty_iff.1 hnil] at hlen
      obtain rfl := List.length_eq_zero_iff.1 hlen
      exact nofun
    · exact hu.stmt.right.all
  · exact assigns hlen hu

end Config.Unreserved

end SmallLisp
