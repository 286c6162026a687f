import Relink.Proofs.Json.Values
import Relink.Tree.Encoding

/-!
# Trees and their texts

The JSON that a tree is serialized to says everything about the tree but where its nodes lie. A node's
label comes first in it, so nodes of different kinds are told apart, and nodes of one kind are compared
part by part. There are no numerals in it, so it can be told from its text.

Results:
* `Expr.toJson_eq_iff`: two expressions have the same JSON exactly when only their extents differ.
* `Stmt.toJson_eq_iff`: so do two statements.
* `ModuleTree.closed_toJson`: the JSON of a module can be told from its text.
* `ModuleTree.text_eq_iff`: two modules have the same text exactly when only their extents differ.
-/

namespace Relink

/-! ## Parts of a node -/

theorem labelled_inj {label label' : String} {parts parts' : List (String × Json)} :
    labelled label parts = labelled label' parts' ↔ label = label' ∧ parts = parts' := by
  simp [labelled]

theorem optionalText_inj {a b : Option String} : optionalText a = optionalText b ↔ a = b := by
  cases a <;> cases b <;> simp [optionalText]

theorem ImportBinding.toJson_inj {a b : ImportBinding} : a.toJson = b.toJson ↔ a = b := by
  cases a
  cases b
  simp [toJson]

theorem ExportBinding.toJson_inj {a b : ExportBinding} : a.toJson = b.toJson ↔ a = b := by
  cases a
  cases b
  simp [toJson]

theorem ImportClause.toJson_inj {a b : ImportClause} : a.toJson = b.toJson ↔ a = b := by
  cases a <;> cases b <;>
    simp [toJson, List.map_inj_right fun _ _ => ImportBinding.toJson_inj.mp]

theorem ExportClause.toJson_inj {a b : ExportClause} : a.toJson = b.toJson ↔ a = b := by
  cases a <;> cases b <;>
    simp [toJson, optionalText_inj, List.map_inj_right fun _ _ => ExportBinding.toJson_inj.mp]

/-- An import without names is told from one with names. -/
theorem ImportClause.getD_toJson_inj {a b : Option ImportClause} :
    (a.map toJson).getD .null = (b.map toJson).getD .null ↔ a = b := by
  have hne (names : ImportClause) : names.toJson ≠ .null := by cases names <;> simp [toJson]
  cases a <;> cases b <;> simp [toJson_inj, hne, (hne _).symm]

/-! ## Expressions -/

namespace Expr

mutual

/-- **Two expressions have the same JSON** exactly when only their extents differ. -/
theorem toJson_eq_iff (x y : Expr) :
    x.toJson = y.toJson ↔ x.withoutExtents = y.withoutExtents := by
  cases x with
  | call e callee args =>
    have hcallee := toJson_eq_iff callee
    have hargs := toJsons_eq_iff args
    cases y <;> simp [toJson, labelled_inj, label, withoutExtents, hcallee, hargs]
  | id e name => cases y <;> simp [toJson, labelled_inj, label, withoutExtents]
  | dynamicImport e m =>
    have hm := toJson_eq_iff m
    cases y <;> simp [toJson, labelled_inj, label, withoutExtents, hm]
  | string e value => cases y <;> simp [toJson, labelled_inj, label, withoutExtents]
  | template e quasis subs =>
    have hsubs := toJsons_eq_iff subs
    have hquasis (quasis' : List String) :
        quasis.map Json.string = quasis'.map Json.string ↔ quasis = quasis' :=
      List.map_inj_right fun _ _ => Json.string.inj
    cases y <;> simp [toJson, labelled_inj, label, withoutExtents, hquasis, hsubs]

/-- Lists of expressions have the same JSON exactly when only their extents differ. -/
theorem toJsons_eq_iff (xs ys : List Expr) :
    toJsons xs = toJsons ys ↔ withoutExtentsOf xs = withoutExtentsOf ys := by
  cases xs with
  | nil => cases ys <;> simp [toJsons, withoutExtentsOf]
  | cons x rest =>
    have hx := toJson_eq_iff x
    have hrest := toJsons_eq_iff rest
    cases ys <;> simp [toJsons, withoutExtentsOf, hx, hrest]

end

mutual

theorem closed_toJson (x : Expr) : x.toJson.Closed := by
  cases x with
  | call e callee args => simpa [toJson, labelled, closed_toJson callee] using closed_toJsons args
  | dynamicImport e m => simp [toJson, labelled, closed_toJson m]
  | template e quasis subs => simpa [toJson, labelled] using closed_toJsons subs
  | _ => simp [toJson, labelled]

theorem closed_toJsons (xs : List Expr) : ∀ v ∈ toJsons xs, v.Closed := by
  cases xs with
  | nil => simp [toJsons]
  | cons x rest => exact List.forall_mem_cons.mpr ⟨closed_toJson x, closed_toJsons rest⟩

end

end Expr

theorem optionalExpr_eq_iff (a b : Option Expr) :
    optionalExpr a = optionalExpr b ↔ a.map Expr.withoutExtents = b.map Expr.withoutExtents := by
  have hne (x : Expr) : x.toJson ≠ .null := by unfold Expr.toJson labelled; simp
  cases a <;> cases b <;> simp [optionalExpr, Expr.toJson_eq_iff, hne, (hne _).symm]

/-! ## Declarations -/

theorem ImportDecl.parts_eq_iff (d d' : ImportDecl) :
    d.parts = d'.parts ↔
      { d with module := d.module.withoutExtents } =
        { d' with module := d'.module.withoutExtents } := by
  simp [parts, optionalText_inj, ImportClause.getD_toJson_inj, Expr.toJson_eq_iff]

theorem ExportDecl.parts_eq_iff (d d' : ExportDecl) :
    d.parts = d'.parts ↔
      { d with source := d.source.map Expr.withoutExtents } =
        { d' with source := d'.source.map Expr.withoutExtents } := by
  simp [parts, ExportClause.toJson_inj, optionalExpr_eq_iff]

theorem closed_optionalText (a : Option String) : (optionalText a).Closed := by
  cases a <;> simp [optionalText]

theorem closed_optionalExpr (a : Option Expr) : (optionalExpr a).Closed := by
  cases a <;> simp [optionalExpr, Expr.closed_toJson]

theorem ImportDecl.closed_parts (d : ImportDecl) : ∀ p ∈ d.parts, p.2.Closed := by
  have hnames : ((d.names.map ImportClause.toJson).getD .null).Closed := by
    rcases d.names with _ | _ | _ <;> simp [ImportClause.toJson, ImportBinding.toJson]
  simp [parts, closed_optionalText, hnames, Expr.closed_toJson]

theorem ExportDecl.closed_parts (d : ExportDecl) : ∀ p ∈ d.parts, p.2.Closed := by
  have hnames : d.names.toJson.Closed := by
    cases d.names <;> simp [ExportClause.toJson, ExportBinding.toJson, closed_optionalText]
  simp [parts, hnames, closed_optionalExpr]

theorem Scope.closed_parts (kind : Scope) : ∀ p ∈ kind.parts, p.2.Closed := by
  cases kind <;> simp [parts]

/-! ## Statements -/

namespace Stmt

mutual

/-- **Two statements have the same JSON** exactly when only their extents differ. -/
theorem toJson_eq_iff (s t : Stmt) :
    s.toJson = t.toJson ↔ s.withoutExtents = t.withoutExtents := by
  -- A scope has its label from its kind, so `t` is split by the kinds of scopes as well.
  cases s with
  | scope e kind body =>
    have hbody := toJsons_eq_iff body
    cases kind <;> rcases t with ⟨_, _ | _ | _, _⟩ | _ | _ | _ | _ <;>
      simp [toJson, labelled_inj, label, Scope.parts, withoutExtents, hbody]
  | importing e decl =>
    rcases t with ⟨_, _ | _ | _, _⟩ | _ | _ | _ | _ <;>
      simp [toJson, labelled_inj, label, withoutExtents, ImportDecl.parts_eq_iff]
  | exporting e decl =>
    rcases t with ⟨_, _ | _ | _, _⟩ | _ | _ | _ | _ <;>
      simp [toJson, labelled_inj, label, withoutExtents, ExportDecl.parts_eq_iff]
  | expr e x =>
    rcases t with ⟨_, _ | _ | _, _⟩ | _ | _ | _ | _ <;>
      simp [toJson, labelled_inj, label, withoutExtents, Expr.toJson_eq_iff]
  | var e name initializer =>
    rcases t with ⟨_, _ | _ | _, _⟩ | _ | _ | _ | _ <;>
      simp [toJson, labelled_inj, label, withoutExtents, optionalExpr_eq_iff]

/-- Lists of statements have the same JSON exactly when only their extents differ. -/
theorem toJsons_eq_iff (ss ts : List Stmt) :
    toJsons ss = toJsons ts ↔ withoutExtentsOf ss = withoutExtentsOf ts := by
  cases ss with
  | nil => cases ts <;> simp [toJsons, withoutExtentsOf]
  | cons s rest =>
    have hs := toJson_eq_iff s
    have hrest := toJsons_eq_iff rest
    cases ts <;> simp [toJsons, withoutExtentsOf, hs, hrest]

end

mutual

theorem closed_toJson (s : Stmt) : s.toJson.Closed := by
  cases s with
  | scope e kind body =>
    have hparts : ∀ p ∈ kind.parts ++ [("body", .array (toJsons body))], p.2.Closed :=
      List.forall_mem_append.mpr ⟨kind.closed_parts, by simpa using closed_toJsons body⟩
    rw [toJson, labelled, Json.closed_object]
    exact List.forall_mem_cons.mpr ⟨Json.closed_string _, hparts⟩
  | importing e decl => simpa [toJson, labelled] using decl.closed_parts
  | exporting e decl => simpa [toJson, labelled] using decl.closed_parts
  | expr e x => simp [toJson, labelled, x.closed_toJson]
  | var e name initializer => simp [toJson, labelled, closed_optionalExpr]

theorem closed_toJsons (ss : List Stmt) : ∀ v ∈ toJsons ss, v.Closed := by
  cases ss with
  | nil => simp [toJsons]
  | cons s rest => exact List.forall_mem_cons.mpr ⟨closed_toJson s, closed_toJsons rest⟩

end

end Stmt

/-! ## Modules -/

namespace ModuleTree

theorem toJson_eq_iff (m m' : ModuleTree) :
    m.toJson = m'.toJson ↔ m.withoutExtents = m'.withoutExtents := by
  simp [toJson, withoutExtents, Stmt.toJsons_eq_iff]

theorem closed_toJson (m : ModuleTree) : m.toJson.Closed := by
  simpa [toJson] using Stmt.closed_toJsons m.body

/-- **A module's text loses only the extents.** Two modules have the same text exactly when they are the
same but for where their nodes lie. -/
theorem text_eq_iff (m m' : ModuleTree) :
    m.text = m'.text ↔ m.withoutExtents = m'.withoutExtents :=
  (Json.text_inj m.closed_toJson m'.closed_toJson).trans (m.toJson_eq_iff m')

end ModuleTree

end Relink
