import SqlCompiler.Proofs.Normalization.NormalForms
import SqlCompiler.Proofs.Normalization.Rules
import SqlCompiler.Proofs.Normalization.Soundness

/-!
# Normal forms mean what the terms mean

A term and its normal form mean the same in every scope, for every meaning of the tables and the
operators, as long as no rule that was applied on the way captured a name.  The names that are made
up are never captured, for no name a user writes has a dollar sign in it.  A name that a user wrote
can be: a selector is put in the place of the argument of the next one, also below a function whose
argument has the name of its own.

Such a name can keep a term from having a normal form at all.  Two groupings whose rows and keys read
each other's argument go on forever: merging puts the record of both in the place of either argument,
below the function that binds the other, so that the key of one of them is the record of both again.

Main results:

- Definition `Term.normalizeTracing`: normalizing, with the nodes that rules were applied to.
- Definition `Term.NormalizesBy`: a normal form, and the nodes rules were applied to on the way.
- Theorem `Term.NormalizesBy.keeps_meaning`: without capture the normal form means the same.
- Theorem `Term.olderCounts_captured`: with it, it need not.
- Definition `Term.OutlastsFuel`: normalizing a term does not end within some fuel.
- Theorem `Term.normalizing_crossSelect`: a term that normalizing never leaves.
-/

namespace SqlCompiler

namespace Term

/-! ## Runs with the nodes rules are applied to -/

/-- Apply the rules from the leaves up until none applies, and keep the nodes they are applied
to. -/
def normalizeTracing : Nat → Term → NameM (Term × List Term)
  | 0, _ => failure
  | fuel + 1, t => do
    let parts ← t.children.mapM (normalizeTracing fuel)
    let t := t.withChildren (parts.map (·.1))
    let below := parts.flatMap (·.2)
    match t.step? with
    | some step => do
      let (normal, redexes) ← normalizeTracing fuel (← step)
      return (normal, below ++ t :: redexes)
    | none => return (t, below)

/-- Normalizing a term ends with another, however long it takes, and applies rules to some
nodes. -/
def NormalizesBy (t normal : Term) (redexes : List Term) : Prop :=
  ∃ fuel stop, (normalizeTracing fuel t).run 0 = some ((normal, redexes), stop)

variable {fuel n n' start stop : Nat} {t normal : Term} {redexes : List Term}

theorem NameM.mapM_map {α β γ : Type} (f : β → γ) (step : α → NameM β) (items : List α) :
    (items.mapM fun a => f <$> step a) = (·.map f) <$> items.mapM step := by
  induction items with
  | nil => rfl
  | cons a rest ih =>
    rw [List.mapM_cons, List.mapM_cons, ih]
    simp only [bind_map_left, map_bind, map_pure, List.map_cons]

/-- The nodes are kept beside the run. -/
theorem normalizeWithin_eq_tracing (fuel : Nat) (t : Term) :
    normalizeWithin fuel t = (·.1) <$> normalizeTracing fuel t := by
  induction fuel generalizing t with
  | zero => rfl
  | succ fuel ih =>
    have hparts : t.children.mapM (normalizeWithin fuel) =
        (·.map (·.1)) <$> t.children.mapM (normalizeTracing fuel) := by
      rw [← NameM.mapM_map]
      congr 1
      funext c
      exact ih c
    rw [normalizeWithin, normalizeTracing, mapChildren_eq, hparts]
    simp only [map_bind, bind_map_left]
    congr 1
    funext parts
    cases (t.withChildren (parts.map (·.1))).step? with
    | none => rfl
    | some step => simp only [map_bind, ih, bind_pure_comp, Functor.map_map]

/-- Either no rule applies once the children are normal, or normalizing goes on from what a rule
makes of the node. -/
theorem tracing_cases (h : (normalizeTracing (fuel + 1) t).run n = some ((normal, redexes), n')) :
    ∃ parts n₁, (t.children.mapM (normalizeTracing fuel)).run n = some (parts, n₁) ∧
      (((t.withChildren (parts.map (·.1))).step? = none ∧
          normal = t.withChildren (parts.map (·.1)) ∧ redexes = parts.flatMap (·.2) ∧ n' = n₁) ∨
        ∃ step t₂ n₂ later, (t.withChildren (parts.map (·.1))).step? = some step ∧
          step.run n₁ = some (t₂, n₂) ∧
          (normalizeTracing fuel t₂).run n₂ = some ((normal, later), n') ∧
          redexes = parts.flatMap (·.2) ++ t.withChildren (parts.map (·.1)) :: later) := by
  rw [normalizeTracing] at h
  obtain ⟨parts, n₁, hparts, h⟩ := NameM.run_bind_eq_some.mp h
  refine ⟨parts, n₁, hparts, ?_⟩
  dsimp only at h
  cases hstep : (t.withChildren (parts.map (·.1))).step? with
  | none =>
    rw [hstep] at h
    cases h
    exact .inl ⟨rfl, rfl, rfl, rfl⟩
  | some step =>
    rw [hstep] at h
    obtain ⟨t₂, n₂, hrule, h⟩ := NameM.run_bind_eq_some.mp h
    obtain ⟨⟨normal', later⟩, n₃, hrest, h⟩ := NameM.run_bind_eq_some.mp h
    cases h
    exact .inr ⟨step, t₂, n₂, later, rfl, hrule, hrest, rfl⟩

/-- What normalizing makes of the children is normal. -/
theorem step?_eq_none_of_tracing {parts : List (Term × List Term)}
    (hrun : (t.children.mapM (normalizeTracing fuel)).run n = some (parts, n')) :
    ∀ c ∈ parts.map (·.1), c.step? = none := by
  intro c hc
  obtain ⟨part, hpart, rfl⟩ := List.mem_map.mp hc
  obtain ⟨c₀, -, m, m', hstep⟩ := NameM.exists_of_forall₂ (NameM.forall₂_of_mapM hrun) hpart
  have hwithin : (normalizeWithin fuel c₀).run m = some (part.1, m') := by
    rw [normalizeWithin_eq_tracing]
    exact NameM.run_map_eq_some.mpr ⟨part, hstep, rfl⟩
  exact (isNormal_iff.mp (normalizeWithin_isNormal hwithin)).1

/-! ## Meanings along a run -/

variable {V : Type} {I : Reading V}

/-- What normalizing keeps: names are only made up, and the meaning is that of the term. -/
structure Keeps (I : Reading V) (t normal : Term) (n n' : Nat) : Prop where
  later : n ≤ n'
  unnamed : normal.Unnamed n'
  meaning : ∀ ρ : Scope V, normal.meaning I ρ = t.meaning I ρ

/-- Names made up before or after the children are not names of the node. -/
theorem Unnamed.withChildren {terms : List Term} (h : t.Unnamed n)
    (hterms : ∀ c ∈ terms, c.Unnamed n) (hlength : terms.length = t.children.length) :
    (t.withChildren terms).Unnamed n := by
  intro start hstart k hk hmem
  rcases (mem_namesBy _).mp hmem with ⟨y, hy, hx⟩ | hx | ⟨c, hc, hx⟩
  · rw [withChildren_eq_bound] at hy
    exact h start hstart k hk ((mem_namesBy _).mpr (.inl ⟨y, hy, hx⟩))
  · rw [binders_withChildren hlength] at hx
    exact h start hstart k hk (names_of_mem_binders hx)
  · rw [children_withChildren hlength] at hc
    exact hterms c hc start hstart k hk hx

/-- What steps keep of each term of a list, they keep of the list. -/
theorem keeps_of_mapM {step : Term → NameM (Term × List Term)} {terms : List Term}
    {parts : List (Term × List Term)}
    (hstep : ∀ c ∈ terms, ∀ n part n', (step c).run n = some (part, n') → c.Unnamed n →
      (∀ node ∈ part.2, node.Scoped) → Keeps I c part.1 n n')
    (hnames : ∀ c ∈ terms, c.Unnamed n) (hscoped : ∀ node ∈ parts.flatMap (·.2), node.Scoped)
    (hrun : (terms.mapM step).run n = some (parts, n')) :
    n ≤ n' ∧ (∀ c ∈ parts.map (·.1), c.Unnamed n') ∧
      List.Forall₂ (fun c c' => ∀ ρ : Scope V, c'.meaning I ρ = c.meaning I ρ) terms
        (parts.map (·.1)) := by
  induction terms generalizing n parts with
  | nil =>
    cases hrun
    exact ⟨Nat.le_refl _, by simp, .nil⟩
  | cons c rest ih =>
    rw [List.mapM_cons] at hrun
    obtain ⟨part, n₁, hfirst, hrun⟩ := NameM.run_bind_eq_some.mp hrun
    obtain ⟨parts, n₂, hrest, hrun⟩ := NameM.run_bind_eq_some.mp hrun
    cases hrun
    have hpart := hstep c List.mem_cons_self n part n₁ hfirst (hnames c List.mem_cons_self)
      fun node hnode => hscoped node (by simp [hnode])
    obtain ⟨hlater, hunnamed, hmeaning⟩ := ih
      (fun d hd => hstep d (List.mem_cons_of_mem c hd))
      (fun d hd => (hnames d (List.mem_cons_of_mem c hd)).mono hpart.later)
      (fun node hnode => hscoped node (List.mem_append_right _ hnode)) hrest
    refine ⟨Nat.le_trans hpart.later hlater, ?_, .cons hpart.meaning hmeaning⟩
    intro d hd
    rcases List.mem_cons.mp hd with rfl | hd
    · exact hpart.unnamed.mono hlater
    · exact hunnamed d hd

/-- Normalizing keeps the meaning if every node a rule is applied to is scoped: by induction on the
run, from the children to the node, and on from what a rule makes of it. -/
theorem normalizeTracing_keeps
    (hrun : (normalizeTracing fuel t).run n = some ((normal, redexes), n')) (hnames : t.Unnamed n)
    (hscoped : ∀ node ∈ redexes, node.Scoped) : Keeps I t normal n n' := by
  induction fuel generalizing t n normal redexes n' with
  | zero => cases hrun
  | succ fuel ih =>
    obtain ⟨parts, n₁, hparts, hnext⟩ := tracing_cases hrun
    have hbelow : ∀ node ∈ parts.flatMap (·.2), node.Scoped := by
      intro node hnode
      rcases hnext with ⟨-, -, rfl, -⟩ | ⟨-, -, -, later, -, -, -, rfl⟩
      · exact hscoped node hnode
      · exact hscoped node (List.mem_append_left _ hnode)
    obtain ⟨hlater, hunnamed, hmeaning⟩ := keeps_of_mapM (I := I)
      (fun c _ m part m' hc hm hs => ih hc hm hs) (fun c hc => Unnamed.child hnames hc)
      hbelow hparts
    have hlength := hmeaning.length_eq.symm
    have hnode := (hnames.mono hlater).withChildren hunnamed hlength
    have hsame := meaning_withChildren hmeaning
    rcases hnext with ⟨-, rfl, -, rfl⟩ | ⟨step, t₂, n₂, later, hstep, hrule, hrest, rfl⟩
    · exact ⟨hlater, hnode, hsame⟩
    · have hrewrites := rewrites_of_step? hstep
      obtain ⟨hle, hfrom⟩ := hrewrites.namesFrom hrule
      have hkeeps := ih hrest (hnode.of_namesFrom hle hfrom)
        fun node hmem => hscoped node (by simp [hmem])
      have hchildren := step?_eq_none_of_tracing hparts
      have hrulemeaning : ∀ ρ : Scope V, t₂.meaning I ρ =
          (t.withChildren (parts.map (·.1))).meaning I ρ := by
        intro ρ
        apply hrewrites.meaning_eq _ (hscoped _ (by simp)) hnode hrule
        rwa [children_withChildren hlength]
      refine ⟨Nat.le_trans hlater (Nat.le_trans hle hkeeps.later), hkeeps.unnamed, ?_⟩
      intro ρ
      rw [hkeeps.meaning, hrulemeaning, hsame]

/-! ## Older people -/

/-- For the age of each person, the number of people who are older; the argument of the condition
has any name. -/
def olderCounts (other : String) : Term :=
  ((table "Person").select (fn "p" (member (bound "p") "Age"))).select
    (fn "a" ((table "Person").apply .count
      [fn other (binary .greater (member (bound other) "Age") (bound "a"))]))

/-- The two selectors as one. -/
def olderCountsMerged (other : String) : Term :=
  (table "Person").select (fn "p" (((table "Person").filter
    (fn other (binary .greater (member (bound other) "Age") (member (bound "p") "Age")))).apply
      .count []))

/-- The nodes that rules are applied to: the count with a condition, and the two selectors. -/
def olderCountsRedexes (other : String) : List Term :=
  [(table "Person").apply .count
    [fn other (binary .greater (member (bound other) "Age") (bound "a"))],
   ((table "Person").select (fn "p" (member (bound "p") "Age"))).select
    (fn "a" (((table "Person").filter
      (fn other (binary .greater (member (bound other) "Age") (bound "a")))).apply .count []))]

/-- Two people of the ages one and two, compared as integers. -/
def twoAges : Reading Int where
  constant
    | .integer i => .value i
    | _ => .missing
  parameter _ _ := .missing
  table _ := [.record [("Age", .value 1)], .record [("Age", .value 2)]]
  property _ _ := .missing
  call _ _ := .missing
  binary
    | .greater, .value a, .value b => .value (if a > b then 1 else 0)
    | _, _, _ => .missing
  not d := d
  negate d := d
  conditional _ d _ := d
  convert _ d := d
  holds
    | .value i => i == 1
    | _ => false
  same _ _ := false
  amount _ := 0
  fold _ elements := .value elements.length
  elements _ _ := []
  result _ _ := .missing
  constant_congr a b h := by
    cases a <;> cases b <;> first | rfl | cases h | skip
    exact congrArg (fun i => Datum.value i) (eq_of_beq h)
  parameter_congr _ _ _ _ := rfl

/-! ## Normal forms -/

theorem unnamed_of_no_dollar (h : ∀ x ∈ t.names, '$' ∉ x.toList) : t.Unnamed 0 := by
  intro start _ k _ hmem
  apply h _ hmem
  simp [madeUp, String.toList_append]

/-- A normal form means what the term means, in every scope and for every meaning of the tables
and the operators, if the term has no dollar sign in its names and no name is captured where a rule
is applied. -/
theorem NormalizesBy.keeps_meaning (h : t.NormalizesBy normal redexes)
    (hnames : ∀ x ∈ t.names, '$' ∉ x.toList) (hscoped : ∀ node ∈ redexes, node.Scoped)
    (I : Reading V) (ρ : Scope V) : normal.meaning I ρ = t.meaning I ρ := by
  obtain ⟨fuel, stop, hrun⟩ := h
  exact (normalizeTracing_keeps hrun (unnamed_of_no_dollar hnames) hscoped).meaning ρ

theorem NormalizesBy.keeps_meaning_olderCounts :
    (∀ x ∈ (olderCounts "q").names, '$' ∉ x.toList) ∧
      (∀ node ∈ olderCountsRedexes "q", node.Scoped) ∧
      (olderCounts "q").NormalizesBy (olderCountsMerged "q") (olderCountsRedexes "q") ∧
      (olderCountsMerged "q").meaning twoAges Scope.empty =
        (olderCounts "q").meaning twoAges Scope.empty := by
  have hnames : ∀ x ∈ (olderCounts "q").names, '$' ∉ x.toList := by decide
  have hscoped : ∀ node ∈ olderCountsRedexes "q", node.Scoped := by decide
  have hruns : (olderCounts "q").NormalizesBy (olderCountsMerged "q") (olderCountsRedexes "q") :=
    ⟨20, 0, rfl⟩
  exact ⟨hnames, hscoped, hruns, hruns.keeps_meaning hnames hscoped twoAges Scope.empty⟩

/-- With the name of the first argument for the last one, the two selectors become one that
compares each age with itself. -/
theorem olderCounts_captured (ρ : Scope Int) :
    (olderCounts "p").NormalizesBy (olderCountsMerged "p") (olderCountsRedexes "p") ∧
      (olderCounts "p").meaning twoAges ρ =
        .datum (.sequence [.value 1, .value 0]) ∧
      (olderCountsMerged "p").meaning twoAges ρ =
        .datum (.sequence [.value 0, .value 0]) :=
  ⟨⟨20, 0, rfl⟩, rfl, rfl⟩

end Term

/-! ## Terms that outlast the fuel -/

namespace Term

variable {t c : Term} {fuel less : Nat}

/-- Normalizing a term does not end within some fuel. -/
def OutlastsFuel (fuel : Nat) (t : Term) : Prop :=
  ∀ start, (normalizeWithin fuel t).run start = none

theorem outlastsFuel_zero (t : Term) : t.OutlastsFuel 0 := fun _ => rfl

theorem OutlastsFuel.anti (h : t.OutlastsFuel fuel) (hless : less ≤ fuel) :
    t.OutlastsFuel less := by
  intro start
  cases hrun : (normalizeWithin less t).run start with
  | none => rfl
  | some result =>
    rw [← h start, ← normalizeWithin_mono hrun hless]

/-- A node outlasts more fuel than its children. -/
theorem OutlastsFuel.of_child (h : c.OutlastsFuel fuel) (hc : c ∈ t.children) :
    t.OutlastsFuel (fuel + 1) := by
  intro start
  cases hrun : (normalizeWithin (fuel + 1) t).run start with
  | none => rfl
  | some result =>
    rw [normalizeWithin] at hrun
    obtain ⟨t', n, hchildren, -⟩ := NameM.run_bind_eq_some.mp hrun
    have hflip := (NameM.children_of_mapChildren hchildren).flip
    obtain ⟨c', -, m, m', hchild⟩ := NameM.exists_of_forall₂ hflip hc
    rw [h m] at hchild
    cases hchild

/-- A node to which a rule applies outlasts more fuel than what the rule makes of it. -/
theorem OutlastsFuel.of_step {step : NameM Term} (hnormal : ∀ c ∈ t.children, c.IsNormal)
    (hstep : t.step? = some step)
    (h : ∀ n t' n', step.run n = some (t', n') → t'.OutlastsFuel fuel) :
    t.OutlastsFuel (fuel + 1) := by
  intro start
  cases hrun : (normalizeWithin (fuel + 1) t).run start with
  | none => rfl
  | some result =>
    rw [normalizeWithin] at hrun
    obtain ⟨t', n, hchildren, hrun⟩ := NameM.run_bind_eq_some.mp hrun
    obtain ⟨parts, hparts, rfl⟩ := NameM.mapChildren_eq_some.mp hchildren
    -- with enough fuel the children stay as they are, so they do with this much
    have hself : (t.children.mapM (normalizeWithin (max fuel t.size))).run start =
        some (t.children, start) := by
      apply NameM.run_mapM_self
      intro c hc
      have hlt := size_lt_of_mem_children hc
      exact normalizeWithin_of_isNormal (hnormal c hc) (by omega)
    have hmore := mapM_normalizeWithin_mono hparts (Nat.le_max_left fuel t.size)
    rw [hself] at hmore
    cases hmore
    rw [withChildren_children, hstep] at hrun
    obtain ⟨t', n', hstep, hrun⟩ := NameM.run_bind_eq_some.mp hrun
    rw [h start t' n' hstep n'] at hrun
    cases hrun

/-- A term that outlasts every fuel has no normal form. -/
theorem normalizing_eq_none (h : ∀ fuel, t.OutlastsFuel fuel) (start : Nat) :
    normalizing t start = none := by
  cases hrun : normalizing t start with
  | none => rfl
  | some result =>
    obtain ⟨fuel, hrun⟩ := normalizing_eq_some.mp hrun
    rw [h fuel start] at hrun
    cases hrun

/-! ## Groupings that read each other's argument -/

/-- The rows of a table, each read as some value, grouped by a key. -/
def groupedRows (entity row : String) (value : Term) (param : String) (key : Term) : Term :=
  ((table entity).select (fn row value)).apply .groupBy [fn param key]

/-- Two groupings by one name each, under the other one. -/
def crossRecord (entity row x y : String) : Term :=
  record [("A", groupedRows entity row (bound x) y (bound x)),
    ("B", groupedRows entity row (bound y) x (bound y))]

/-- The record of both groupings, selected out of itself. -/
def crossSelect (entity row x y : String) : Term :=
  (table entity).select (fn x (((table entity).select (fn y (crossRecord entity row x y))).select
    (fn y (crossRecord entity row x y))))

/-- A grouping of the record of both by the record of both. -/
def selfGrouped (entity row x y param : String) : Term :=
  groupedRows entity row (crossRecord entity row x y) param (crossRecord entity row x y)

section

variable {entity row x y : String}

theorem isNormal_bound : (bound x).IsNormal := isNormal_iff.mpr ⟨rfl, by simp [children]⟩

theorem IsNormal.fn {body : Term} (h : body.IsNormal) : (fn x body).IsNormal := by
  rw [isNormal_iff]
  exact ⟨rfl, by simpa [Term.fn, children] using h⟩

/-- A value selected out of the rows of a table is normal if the value is. -/
theorem IsNormal.selectedRows {value : Term} (h : value.IsNormal) :
    ((table entity).select (Term.fn row value)).IsNormal := by
  have htable : (table entity).IsNormal := isNormal_iff.mpr ⟨rfl, by simp [children]⟩
  rw [isNormal_iff]
  exact ⟨rfl, by simpa [Term.select, apply, children] using ⟨htable, h.fn⟩⟩

theorem isNormal_groupedRows {name param : String} :
    (groupedRows entity row (bound name) param (bound name)).IsNormal := by
  rw [isNormal_iff]
  exact ⟨rfl, by
    simpa [groupedRows, apply, children] using ⟨isNormal_bound.selectedRows, isNormal_bound.fn⟩⟩

theorem isNormal_crossRecord : (crossRecord entity row x y).IsNormal := by
  rw [isNormal_iff]
  exact ⟨rfl, by
    simpa [crossRecord, children] using ⟨isNormal_groupedRows, isNormal_groupedRows⟩⟩

/-! ## Going on forever -/

theorem substitute_groupedRows {name param : String} (hrow : row ≠ name) (hparam : param ≠ name)
    (value : Term) :
    (groupedRows entity row (bound name) param (bound name)).substitute name value =
      groupedRows entity row value param value := by
  simp [groupedRows, Term.select, apply, Term.fn, substitute, replaceDown, replaceTerms,
    hrow.symm, hparam.symm]

/-- Put into itself for an argument, the record has in it a grouping of itself by itself under the
other argument. -/
theorem selfGrouped_mem_substitute {param other : String}
    (hparams : (param = x ∧ other = y) ∨ (param = y ∧ other = x)) (hne : other ≠ param)
    (hrow : row ≠ param) :
    selfGrouped entity row x y other ∈
      ((crossRecord entity row x y).substitute param (crossRecord entity row x y)).children := by
  have hself : selfGrouped entity row x y other =
      (groupedRows entity row (bound param) other (bound param)).substitute param
        (crossRecord entity row x y) := (substitute_groupedRows hrow hne _).symm
  rw [hself]
  rcases hparams with ⟨rfl, rfl⟩ | ⟨rfl, rfl⟩
  · exact List.mem_cons_self
  · exact List.mem_cons_of_mem _ List.mem_cons_self

/-- Two selections outlast more fuel than the second selector with the first one merged into it. -/
theorem OutlastsFuel.merged {f g : Term} {param : String} (hf : f.IsNormal) (hg : g.IsNormal)
    (h : (g.substitute param f).OutlastsFuel fuel) :
    (((table entity).select (Term.fn row f)).select (Term.fn param g)).OutlastsFuel (fuel + 3) := by
  have hselector : (Term.fn row (g.substitute param f)).OutlastsFuel (fuel + 1) :=
    h.of_child List.mem_cons_self
  have hselect : ((table entity).select (Term.fn row (g.substitute param f))).OutlastsFuel
      (fuel + 2) := hselector.of_child (List.mem_cons_of_mem _ List.mem_cons_self)
  refine OutlastsFuel.of_step ?_ rfl ?_
  · simpa [Term.select, apply, children] using ⟨hf.selectedRows, hg.fn⟩
  · intro n t' n' hrun
    cases hrun
    exact hselect

/-- The record grouped by itself outlasts more fuel than the record put into itself: the rows are
selected as keys first, which merges the record into the record. -/
theorem OutlastsFuel.selfGrouped {param : String}
    (h : ((crossRecord entity row x y).substitute param (crossRecord entity row x y)).OutlastsFuel
      fuel) :
    (Term.selfGrouped entity row x y param).OutlastsFuel (fuel + 6) := by
  have hnormal : (crossRecord entity row x y).IsNormal := isNormal_crossRecord
  have hkeys : (record [("Key", crossRecord entity row x y), ("Element", bound param)]).IsNormal :=
    isNormal_iff.mpr ⟨rfl, by simpa [children] using ⟨hnormal, isNormal_bound⟩⟩
  have hkey : ((record [("Key", crossRecord entity row x y),
      ("Element", bound param)]).substitute param (crossRecord entity row x y)).OutlastsFuel
        (fuel + 1) := by
    apply h.of_child
    simp [substitute, replaceDown, replaceMembers, children]
  have hselected : (((table entity).select (Term.fn row (crossRecord entity row x y))).select
      (Term.fn param (record [("Key", crossRecord entity row x y),
        ("Element", bound param)]))).OutlastsFuel (fuel + 4) := hkey.merged hnormal hkeys
  refine OutlastsFuel.of_step ?_ rfl ?_
  · simpa [Term.selfGrouped, groupedRows, apply, children] using ⟨hnormal.selectedRows, hnormal.fn⟩
  · intro n t' n' hrun
    cases hrun
    exact hselected.of_child List.mem_cons_self

/-- Groupings of the record by itself outlast any fuel: each of them leads to the other one. -/
theorem outlastsFuel_selfGrouped (hxy : x ≠ y) (hx : row ≠ x) (hy : row ≠ y) (fuel : Nat) :
    (selfGrouped entity row x y x).OutlastsFuel fuel ∧
      (selfGrouped entity row x y y).OutlastsFuel fuel := by
  induction fuel with
  | zero => exact ⟨outlastsFuel_zero _, outlastsFuel_zero _⟩
  | succ fuel ih =>
    obtain ⟨ihx, ihy⟩ := ih
    constructor
    · have hself := ihy.of_child (selfGrouped_mem_substitute (.inl ⟨rfl, rfl⟩) hxy.symm hx)
      exact hself.selfGrouped.anti (by omega)
    · have hself := ihx.of_child (selfGrouped_mem_substitute (.inr ⟨rfl, rfl⟩) hxy hy)
      exact hself.selfGrouped.anti (by omega)

/-- Normalizing never leaves a record of two groupings that is selected out of itself, however many
names have been made up: merging the selections captures the name that one of the groupings reads
from outside. -/
theorem normalizing_crossSelect (hxy : x ≠ y) (hx : row ≠ x) (hy : row ≠ y) (names : Nat) :
    normalizing (crossSelect entity row x y) names = none := by
  apply normalizing_eq_none
  intro fuel
  have hnormal : (crossRecord entity row x y).IsNormal := isNormal_crossRecord
  have hgrouped : (selfGrouped entity row x y x).OutlastsFuel fuel :=
    (outlastsFuel_selfGrouped hxy hx hy fuel).1
  have hself := hgrouped.of_child (selfGrouped_mem_substitute (.inr ⟨rfl, rfl⟩) hxy hy)
  have hselected : (((table entity).select (Term.fn y (crossRecord entity row x y))).select
      (Term.fn y (crossRecord entity row x y))).OutlastsFuel (fuel + 4) :=
    hself.merged hnormal hnormal
  have hwhole : (crossSelect entity row x y).OutlastsFuel (fuel + 6) :=
    (hselected.of_child (t := Term.fn x _) List.mem_cons_self).of_child
      (List.mem_cons_of_mem _ List.mem_cons_self)
  exact hwhole.anti (by omega)

theorem normalizing_crossSelect_person :
    "x" ≠ "z" ∧ "w" ≠ "x" ∧ "w" ≠ "z" ∧ normalizing (crossSelect "Person" "w" "x" "z") 0 = none :=
  ⟨by decide, by decide, by decide,
    normalizing_crossSelect (by decide) (by decide) (by decide) 0⟩

end

end Term

end SqlCompiler
