import SqlCompiler.Proofs.Rendering.Run

/-!
# Reading expressions back

A printed expression is a row of operands, operators and parentheses, as a reader meets them.  How it
is grouped follows from how tightly the operators bind: this module has the rules of grouping, a reader
that goes from left to right, and the proof that the reader finds what the rules allow, so that there
is one way to read a text at most.

Main results:

- Definition `Lexeme`: a part of a printed expression; `parenthesize`: a row of them, in parentheses if
  told so.
- Definition `printLexemes`: the step that prints a row of lexemes, given how its operands and
  operators are printed.
- Theorem `printLexemes_text`: what it adds to a page are the texts of the lexemes.
- Definition `OperatorTable`: how tightly the operators of a language bind.
- Definition `OperatorTable.Reads`: the rules by which a row of lexemes is grouped.
- Definition `OperatorTable.read?`: the reader.
- Theorem `OperatorTable.Reads.read?_eq`: the reader finds the grouping that the rules allow.
- Theorem `OperatorTable.Chain.extend`: a chain of operators of one strength that stands behind
  another one goes on with it, and keeps its value where the operators associate.
- Theorem `OperatorTable.Reads.opened`: rows may be read in the places of operands.
-/

namespace SqlCompiler

/-! ## Rows of lexemes -/

/-- A part of a printed expression: an operand, an operator or a parenthesis. -/
inductive Lexeme (α π ι : Type) where
  | opening
  | closing
  | operand (a : α)
  /-- An operator in front of its operand. -/
  | sign (p : π)
  /-- An operator between its operands. -/
  | joint (op : ι)
  deriving DecidableEq, Repr

variable {α π ι : Type}

/-- A row of lexemes, in parentheses if told so. -/
def parenthesize (wrap : Bool) (ls : List (Lexeme α π ι)) : List (Lexeme α π ι) :=
  if wrap then .opening :: ls ++ [.closing] else ls

section

variable (operand : α → Print Unit) (sign : π → Print Unit) (joint : ι → Print Unit)

/-- Print a lexeme. -/
def Lexeme.print : Lexeme α π ι → Print Unit
  | .opening => Print.text "("
  | .closing => Print.text ")"
  | .operand a => operand a
  | .sign p => sign p
  | .joint op => joint op

/-- Print a row of lexemes, one behind the other. -/
def printLexemes : List (Lexeme α π ι) → Print Unit
  | [] => pure ()
  | l :: rest => do
    l.print operand sign joint
    printLexemes rest

variable {operand sign joint}

theorem printLexemes_append (ls rs : List (Lexeme α π ι)) :
    printLexemes operand sign joint (ls ++ rs) = (do
      printLexemes operand sign joint ls
      printLexemes operand sign joint rs) := by
  induction ls with
  | nil => simp [printLexemes]
  | cons l rest ih => simp [printLexemes, ih]

@[simp]
theorem printLexemes_single (l : Lexeme α π ι) :
    printLexemes operand sign joint [l] = l.print operand sign joint := by
  simp [printLexemes]

/-- A step adds a text to some page. -/
def Print.Adds (frame : Frame) (act : Print Unit) (text : String) : Prop :=
  ∃ page page', act frame page = .ok ((), page') ∧ page'.writer.text = page.writer.text ++ text

/-- What a row adds to a page are the texts of its lexemes, one behind the other. -/
theorem printLexemes_text {frame : Frame}
    (hextends : ∀ l : Lexeme α π ι, Print.Extends frame (l.print operand sign joint))
    {ls : List (Lexeme α π ι)} {page page' : Page}
    (h : printLexemes operand sign joint ls frame page = .ok ((), page')) :
    ∃ texts : List String,
      List.Forall₂ (fun l => Print.Adds frame (l.print operand sign joint)) ls texts ∧
        page'.writer.text = page.writer.text ++ String.join texts := by
  induction ls generalizing page with
  | nil =>
    cases h
    exact ⟨[], .nil, String.append_empty.symm⟩
  | cons l rest ih =>
    change (l.print operand sign joint frame page >>= fun r =>
      printLexemes operand sign joint rest frame r.2) = _ at h
    cases hl : l.print operand sign joint frame page with
    | error e =>
      rw [hl] at h
      cases h
    | ok r =>
      rw [hl] at h
      obtain ⟨texts, htexts, hpage⟩ := ih h
      obtain ⟨text, htext⟩ := hextends l page r.2 hl
      exact ⟨text :: texts, .cons ⟨page, r.2, hl, htext⟩ htexts, by
        rw [hpage, htext, String.join_cons, String.append_assoc]⟩

/-- Parentheses are printed around a row. -/
theorem printLexemes_parenthesize (wrap : Bool) (ls : List (Lexeme α π ι)) :
    printLexemes operand sign joint (parenthesize wrap ls) =
      Print.parenthesized wrap (printLexemes operand sign joint ls) := by
  cases wrap with
  | false => simp [parenthesize, Print.parenthesized]
  | true =>
    simp [parenthesize, Print.parenthesized, printLexemes, printLexemes_append, Lexeme.print]

end

/-! ## Steps in a frame -/

section

variable {frame : Frame}

/-- A step that asks for its frame is given it. -/
theorem read_bind {β : Type} (act : Frame → Print β) :
    (read >>= act : Print β) frame = act frame frame :=
  rfl

/-- Steps that do the same in a frame do so one after the other. -/
theorem seq_congr {act act' act₂ act₂' : Print Unit} (h : act frame = act' frame)
    (h₂ : act₂ frame = act₂' frame) :
    (do act; act₂ : Print Unit) frame = (do act'; act₂' : Print Unit) frame := by
  change (act frame >>= fun _ => act₂ frame) = (act' frame >>= fun _ => act₂' frame)
  rw [h, h₂]

theorem parenthesized_congr {act act' : Print Unit} (h : act frame = act' frame) (wrap : Bool) :
    Print.parenthesized wrap act frame = Print.parenthesized wrap act' frame := by
  cases wrap with
  | false => exact seq_congr h rfl
  | true => exact seq_congr rfl (seq_congr h rfl)

/-- A scalar is printed in parentheses if it does not bind as tightly as its parent asks for. -/
theorem enclose_eq {e : Scalar} {asValue : Bool} {strength : Precedence}
    (h : ∀ page, printedPrecedence e asValue frame page = .ok (strength, page))
    (parent : Precedence) (act : Print Unit) :
    enclose false e parent asValue act frame =
      Print.parenthesized (strength.needsWrap parent) act frame := by
  funext page
  change (printedPrecedence e asValue frame page >>= fun r =>
    Print.parenthesized (r.1.needsWrap parent) act frame r.2) = _
  rw [h]
  rfl

end

/-! ## Parentheses -/

namespace Precedence

variable {inner parent : Int}

theorem needsWrap_eq_false : Precedence.needsWrap inner parent = false ↔
    inner ≠ unknown ∧ parent ≤ inner ∧
      (inner = parent →
        parent ≠ subtraction ∧ parent ≠ multiplicative ∧ parent ≠ logicalNegation) := by
  simp [needsWrap, and_assoc]

/-- What stands without parentheses binds at least as tightly as its parent. -/
theorem le_of_needsWrap (h : Precedence.needsWrap inner parent = false) : parent ≤ inner :=
  (needsWrap_eq_false.mp h).2.1

/-- What stands without parentheses in something that does, does so itself. -/
theorem needsWrap_trans {middle : Int} (h : Precedence.needsWrap inner middle = false)
    (h' : Precedence.needsWrap middle parent = false) :
    Precedence.needsWrap inner parent = false := by
  obtain ⟨hknown, hle, -⟩ := needsWrap_eq_false.mp h
  obtain ⟨-, hle', hsame⟩ := needsWrap_eq_false.mp h'
  refine needsWrap_eq_false.mpr ⟨hknown, Int.le_trans hle' hle, fun heq => hsame ?_⟩
  exact Int.le_antisymm (heq ▸ hle) hle'

/-- What stands without parentheses under `NOT` binds tighter. -/
theorem lt_of_needsWrap (h : Precedence.needsWrap inner logicalNegation = false) :
    (logicalNegation : Int) < inner := by
  obtain ⟨-, hle, hsame⟩ := needsWrap_eq_false.mp h
  exact Int.lt_iff_le_and_ne.mpr ⟨hle, fun heq => (hsame heq.symm).2.2 rfl⟩

/-- An operand without operators needs no parentheses. -/
theorem needsWrap_primary (h : parent ≤ logicalNegation) :
    Precedence.needsWrap primary parent = false := by
  refine needsWrap_eq_false.mpr ⟨by decide, Int.le_trans h (by decide), ?_⟩
  rintro rfl
  exact absurd h (by decide)

end Precedence

/-! ## Groups -/

/-- How operands are grouped by operators. -/
inductive ReadTree (α π ι : Type) where
  | operand (a : α)
  | signed (p : π) (body : ReadTree α π ι)
  | joined (left : ReadTree α π ι) (op : ι) (right : ReadTree α π ι)
  deriving DecidableEq, Repr

/-- How tightly the operators of a language bind. -/
structure OperatorTable (α π ι : Type) where
  /-- An operand whose text has operators of its own binds as loosely as they do. -/
  operand : α → Int
  sign : π → Int
  joint : ι → Int
  /-- Whether operators of one strength may stand in a row; they are grouped from the left. -/
  chains : ι → Bool

variable {α π ι V : Type}

/-- The value of operands that are grouped by operators. -/
def ReadTree.value (operand : α → V) (sign : π → V → V) (joint : ι → V → V → V) :
    ReadTree α π ι → V
  | .operand a => operand a
  | .signed p body => sign p (body.value operand sign joint)
  | .joined l op r => joint op (l.value operand sign joint) (r.value operand sign joint)

namespace OperatorTable

variable (T : OperatorTable α π ι)

/-- How tightly the left operand of an operator has to bind. -/
def left (op : ι) : Int := if T.chains op then T.joint op else T.joint op + 1

theorem joint_le_left (op : ι) : T.joint op ≤ T.left op := by
  unfold left
  split <;> omega

/-! ## The rules -/

/-- A row of lexemes is grouped, as an operand that binds at least as tightly as given. -/
inductive Reads : Int → List (Lexeme α π ι) → ReadTree α π ι → Prop where
  | operand {L : Int} {a : α} (h : L ≤ T.operand a) : Reads L [.operand a] (.operand a)
  | group {L : Int} {ls : List (Lexeme α π ι)} {t : ReadTree α π ι} (hL : L ≤ Precedence.primary)
      (h : Reads Precedence.unknown ls t) : Reads L (.opening :: ls ++ [.closing]) t
  | signed {L : Int} {p : π} {ls : List (Lexeme α π ι)} {t : ReadTree α π ι}
      (hL : L ≤ T.sign p) (h : Reads (T.sign p + 1) ls t) : Reads L (.sign p :: ls) (.signed p t)
  | joined {L : Int} {op : ι} {ls rs : List (Lexeme α π ι)} {t u : ReadTree α π ι}
      (hL : L ≤ T.joint op) (hl : Reads (T.left op) ls t) (hr : Reads (T.joint op + 1) rs u) :
      Reads L (ls ++ .joint op :: rs) (.joined t op u)

/-- What binds tightly stands where less is asked for. -/
theorem Reads.mono {T : OperatorTable α π ι} {L M : Int} {ls : List (Lexeme α π ι)}
    {t : ReadTree α π ι} (h : T.Reads M ls t) (hLM : L ≤ M) : T.Reads L ls t := by
  cases h with
  | operand h => exact .operand (Int.le_trans hLM h)
  | group hL h => exact .group (Int.le_trans hLM hL) h
  | signed hL h => exact .signed (Int.le_trans hLM hL) h
  | joined hL hl hr => exact .joined (Int.le_trans hLM hL) hl hr

/-! ## The reader -/

/-- What waits for an operand that is still being read. -/
inductive Pending (α π ι : Type) where
  | opened
  | signed (p : π)
  | joined (left : ReadTree α π ι) (op : ι)

/-- Give an operand to the operators that wait for it and bind at least as tightly as given. -/
def settle (bound : Int) :
    List (Pending α π ι) → ReadTree α π ι → List (Pending α π ι) × ReadTree α π ι
  | .signed p :: rest, t =>
    if bound ≤ T.sign p then settle bound rest (.signed p t) else (.signed p :: rest, t)
  | .joined l op :: rest, t =>
    if bound ≤ T.joint op then settle bound rest (.joined l op t) else (.joined l op :: rest, t)
  | .opened :: rest, t => (.opened :: rest, t)
  | [], t => ([], t)

/-- How tightly an operand has to bind for what waits for it. -/
def place : List (Pending α π ι) → Int
  | .signed p :: _ => T.sign p + 1
  | .joined _ op :: _ => T.joint op + 1
  | _ => Precedence.unknown

/-- Read the rest of a row of lexemes, with what waits for operands and, if one has been read, the
last operand and how tightly it binds. -/
def readFrom : List (Lexeme α π ι) → List (Pending α π ι) →
    Option (ReadTree α π ι × Int) → Option (ReadTree α π ι)
  | [], pending, some (t, _) =>
    match T.settle Precedence.unknown pending t with
    | ([], t) => some t
    | _ => none
  | .operand a :: rest, pending, none =>
    if T.place pending ≤ T.operand a then readFrom rest pending (some (.operand a, T.operand a))
    else none
  | .opening :: rest, pending, none => readFrom rest (.opened :: pending) none
  | .sign p :: rest, pending, none =>
    if T.place pending ≤ T.sign p then readFrom rest (.signed p :: pending) none else none
  | .closing :: rest, pending, some (t, _) =>
    match T.settle Precedence.unknown pending t with
    | (.opened :: pending, t) => readFrom rest pending (some (t, Precedence.primary))
    | _ => none
  | .joint op :: rest, pending, some (t, strength) =>
    let settled := T.settle (T.left op) pending t
    if T.left op ≤ strength ∧ T.place settled.1 ≤ T.joint op then
      readFrom rest (.joined settled.2 op :: settled.1) none
    else none
  | _, _, _ => none

/-- Read a row of lexemes. -/
def read? (ls : List (Lexeme α π ι)) : Option (ReadTree α π ι) := T.readFrom ls [] none

/-! ## The reader finds what the rules allow -/

variable {T}

/-- Where an operand binds tightly enough for what waits, nothing is settled. -/
theorem settle_of_place {bound : Int} {pending : List (Pending α π ι)}
    (h : T.place pending ≤ bound) (t : ReadTree α π ι) :
    T.settle bound pending t = (pending, t) := by
  cases pending with
  | nil => rfl
  | cons top rest =>
    cases top with
    | opened => rfl
    | signed p =>
      have hp : ¬bound ≤ T.sign p := by
        have h : T.sign p + 1 ≤ bound := h
        omega
      rw [settle, if_neg hp]
    | joined l op =>
      have hop : ¬bound ≤ T.joint op := by
        have h : T.joint op + 1 ≤ bound := h
        omega
      rw [settle, if_neg hop]

/-- After a part that the rules allow, the reader has what it would have if the part were one
operand: it settles to the same for every operator that may follow. -/
theorem Reads.readFrom_append {L : Int} {ls : List (Lexeme α π ι)} {t : ReadTree α π ι}
    (h : T.Reads L ls t) (pending : List (Pending α π ι)) (hplace : T.place pending ≤ L)
    (rest : List (Lexeme α π ι)) :
    ∃ pending' t' strength, L ≤ strength ∧
      T.readFrom (ls ++ rest) pending none = T.readFrom rest pending' (some (t', strength)) ∧
      ∀ bound ≤ L, T.settle bound pending' t' = T.settle bound pending t := by
  induction h generalizing pending rest with
  | @operand L a h =>
    have hfits : T.place pending ≤ T.operand a := Int.le_trans hplace h
    refine ⟨pending, .operand a, T.operand a, h, ?_, fun _ _ => rfl⟩
    rw [List.cons_append, List.nil_append, readFrom, if_pos hfits]
  | @group L ls t hL h ih =>
    obtain ⟨pending', t', strength, -, hread, hsettle⟩ :=
      ih (.opened :: pending) (Int.le_refl _) (.closing :: rest)
    have hopened : T.settle Precedence.unknown pending' t' = (.opened :: pending, t) :=
      hsettle _ (Int.le_refl _)
    refine ⟨pending, t, Precedence.primary, hL, ?_, fun _ _ => rfl⟩
    calc T.readFrom (.opening :: ls ++ [.closing] ++ rest) pending none
        = T.readFrom (ls ++ .closing :: rest) (.opened :: pending) none := by
          simp [readFrom]
      _ = T.readFrom (.closing :: rest) pending' (some (t', strength)) := hread
      _ = T.readFrom rest pending (some (t, Precedence.primary)) := by rw [readFrom, hopened]
  | @signed L p ls t hL h ih =>
    have hfits : T.place pending ≤ T.sign p := Int.le_trans hplace hL
    obtain ⟨pending', t', strength, hstrength, hread, hsettle⟩ :=
      ih (.signed p :: pending) (Int.le_refl _) rest
    refine ⟨pending', t', strength, by omega, ?_, fun bound hbound => ?_⟩
    · rw [List.cons_append, readFrom, if_pos hfits, hread]
    · have hsign : bound ≤ T.sign p := Int.le_trans hbound hL
      rw [hsettle bound (by omega), settle, if_pos hsign]
  | @joined L op ls rs t u hL hl hr ihl ihr =>
    have hleft := T.joint_le_left op
    have hplace' : T.place pending ≤ T.left op := by omega
    obtain ⟨pending₁, t₁, strength₁, hstrength₁, hread₁, hsettle₁⟩ :=
      ihl pending hplace' (.joint op :: rs ++ rest)
    have hsettled : T.settle (T.left op) pending₁ t₁ = (pending, t) := by
      rw [hsettle₁ _ (Int.le_refl _), settle_of_place hplace']
    have hfits : T.left op ≤ strength₁ ∧ T.place pending ≤ T.joint op :=
      ⟨hstrength₁, Int.le_trans hplace hL⟩
    obtain ⟨pending₂, u₂, strength₂, hstrength₂, hread₂, hsettle₂⟩ :=
      ihr (.joined t op :: pending) (Int.le_refl _) rest
    refine ⟨pending₂, u₂, strength₂, by omega, ?_, fun bound hbound => ?_⟩
    · calc T.readFrom (ls ++ .joint op :: rs ++ rest) pending none
          = T.readFrom (ls ++ (.joint op :: rs ++ rest)) pending none := by
            rw [List.append_assoc]
        _ = T.readFrom (.joint op :: (rs ++ rest)) pending₁ (some (t₁, strength₁)) := hread₁
        _ = T.readFrom (rs ++ rest) (.joined t op :: pending) none := by
            rw [readFrom, hsettled]
            exact if_pos hfits
        _ = T.readFrom rest pending₂ (some (u₂, strength₂)) := hread₂
    · have hjoint : bound ≤ T.joint op := Int.le_trans hbound hL
      rw [hsettle₂ bound (by omega), settle, if_pos hjoint]

/-- The reader finds the grouping that the rules allow. -/
theorem Reads.read?_eq {ls : List (Lexeme α π ι)} {t : ReadTree α π ι}
    (h : T.Reads Precedence.unknown ls t) : T.read? ls = some t := by
  obtain ⟨pending', t', strength, -, hread, hsettle⟩ := h.readFrom_append [] (Int.le_refl _) []
  have hsettled : T.settle Precedence.unknown pending' t' = ([], t) := hsettle _ (Int.le_refl _)
  rw [List.append_nil] at hread
  rw [read?, hread, readFrom, hsettled]

/-- Nothing in front of a part that cannot be read helps to read it. -/
theorem readFrom_append_none {rest : List (Lexeme α π ι)}
    (h : ∀ pending last, T.readFrom rest pending last = none) (before : List (Lexeme α π ι))
    (pending : List (Pending α π ι)) (last : Option (ReadTree α π ι × Int)) :
    T.readFrom (before ++ rest) pending last = none := by
  induction before generalizing pending last with
  | nil => exact h pending last
  | cons l before ih =>
    rw [List.cons_append]
    match l, last with
    | .operand a, none =>
      rw [readFrom]
      split
      · exact ih _ _
      · rfl
    | .opening, none => exact ih _ _
    | .sign p, none =>
      rw [readFrom]
      split
      · exact ih _ _
      · rfl
    | .closing, some (t, strength) =>
      rw [readFrom]
      split
      · exact ih _ _
      · rfl
    | .joint op, some (t, strength) =>
      rw [readFrom]
      split
      · exact ih _ _
      · rfl
    | .operand _, some _ | .opening, some _ | .sign _, some _ | .closing, none
    | .joint _, none => rfl

/-! ## Chains -/

/-- A chain of operators of strength `L`: a first operand, which binds as tightly as `M`, and
then operators with tighter operands, grouped from the left. -/
inductive Chain (T : OperatorTable α π ι) (L M : Int) (P : ι → Prop) :
    List (Lexeme α π ι) → ReadTree α π ι → Prop where
  | first {ls : List (Lexeme α π ι)} {t : ReadTree α π ι} (h : T.Reads M ls t) : Chain T L M P ls t
  | snoc {op : ι} {ls rs : List (Lexeme α π ι)} {t u : ReadTree α π ι} (h : Chain T L M P ls t)
      (hop : T.joint op = L) (hchains : T.chains op = true) (hP : P op)
      (hr : T.Reads (L + 1) rs u) : Chain T L M P (ls ++ .joint op :: rs) (.joined t op u)

namespace Chain

variable {L M : Int} {P Q : ι → Prop} {ls rs : List (Lexeme α π ι)} {t u : ReadTree α π ι}

/-- A chain is grouped as the rules say. -/
theorem reads (h : Chain T L M P ls t) (hM : L ≤ M) : T.Reads L ls t := by
  induction h with
  | first h => exact h.mono hM
  | snoc _ hop hchains _ hr ih =>
    subst hop
    refine .joined (Int.le_refl _) ?_ hr
    rwa [left, if_pos hchains]

theorem mono (h : Chain T L M P ls t) (hPQ : ∀ op, P op → Q op) : Chain T L M Q ls t := by
  induction h with
  | first h => exact .first h
  | snoc _ hop hchains hP hr ih => exact ih.snoc hop hchains (hPQ _ hP) hr

/-- A chain behind an operator of its strength is read as going on with what stands before: the
operands are grouped anew, and the value is the same if each operator of the chain associates
with the one before it. -/
theorem extend (op : ι) (h : Chain T L M P ls t) (hop : T.joint op = L)
    (hchains : T.chains op = true) (hP : P op) (hr : Chain T L (L + 1) Q rs u)
    (hQ : ∀ op', Q op' → P op') :
    ∃ v, Chain T L M P (ls ++ .joint op :: rs) v ∧
      ∀ {V : Type} (operand : α → V) (sign : π → V → V) (joint : ι → V → V → V),
        (∀ op', Q op' → ∀ a b c, joint op a (joint op' b c) = joint op' (joint op a b) c) →
        v.value operand sign joint =
          joint op (t.value operand sign joint) (u.value operand sign joint) := by
  induction hr with
  | first hr => exact ⟨.joined t op _, h.snoc hop hchains hP hr, fun _ _ _ _ => rfl⟩
  | @snoc op' rs rs' u u' _ hop' hchains' hP' hr' ih =>
    obtain ⟨v, hv, hvalue⟩ := ih
    refine ⟨.joined v op' u', ?_, fun operand sign joint hassoc => ?_⟩
    · have hsnoc := hv.snoc hop' hchains' (hQ _ hP') hr'
      rwa [List.append_assoc] at hsnoc
    · rw [ReadTree.value, hvalue operand sign joint hassoc, ReadTree.value, hassoc op' hP']

end Chain

end OperatorTable

/-! ## Opened operands -/

section

variable {α' ι' : Type} (row : α → List (Lexeme α' π ι')) (joint : ι → ι')

/-- Put a row in the place of an operand. -/
def Lexeme.opened : Lexeme α π ι → List (Lexeme α' π ι')
  | .opening => [.opening]
  | .closing => [.closing]
  | .operand a => row a
  | .sign p => [.sign p]
  | .joint op => [.joint (joint op)]

/-- Put rows in the places of all operands. -/
def openOperands (ls : List (Lexeme α π ι)) : List (Lexeme α' π ι') :=
  ls.flatMap (Lexeme.opened row joint)

variable {row joint}

/-- Rows that are printed as the operands they stand for are so in every row. -/
theorem printLexemes_openOperands {frame : Frame} {operand : α → Print Unit}
    {operand' : α' → Print Unit} {sign : π → Print Unit} {print : ι → Print Unit}
    {print' : ι' → Print Unit}
    (hrow : ∀ a, printLexemes operand' sign print' (row a) frame = operand a frame)
    (hjoint : ∀ op, print' (joint op) = print op) (ls : List (Lexeme α π ι)) :
    printLexemes operand' sign print' (openOperands row joint ls) frame =
      printLexemes operand sign print ls frame := by
  induction ls with
  | nil => rfl
  | cons l rest ih =>
    rw [openOperands, List.flatMap_cons, printLexemes_append]
    refine seq_congr ?_ ih
    cases l with
    | operand a => exact hrow a
    | joint op => rw [Lexeme.opened, printLexemes_single, Lexeme.print, hjoint]; rfl
    | opening => rw [Lexeme.opened, printLexemes_single]; rfl
    | closing => rw [Lexeme.opened, printLexemes_single]; rfl
    | sign p => rw [Lexeme.opened, printLexemes_single]; rfl

namespace OperatorTable

/-- Rows may stand for operands: the operators bind as tightly as before, all less tightly than
`bound`, and the row of each operand that can be read binds as tightly as that and means the
operand. -/
structure Opens (T : OperatorTable α π ι) (T' : OperatorTable α' π ι')
    (row : α → List (Lexeme α' π ι')) (joint : ι → ι') (bound : Int)
    (Means : ReadTree α' π ι' → ReadTree α π ι → Prop) : Prop where
  sign_eq : ∀ p, T'.sign p = T.sign p
  joint_eq : ∀ op, T'.joint (joint op) = T.joint op
  chains_eq : ∀ op, T'.chains (joint op) = T.chains op
  sign_lt : ∀ p, T.sign p < bound
  joint_lt : ∀ op, T.joint op < bound
  operand : ∀ a, Precedence.unknown ≤ T.operand a →
    ∃ t', T'.Reads bound (row a) t' ∧ Means t' (.operand a)
  signed : ∀ p {t' t}, Means t' t → Means (.signed p t') (.signed p t)
  joined : ∀ op {l' l r' r}, Means l' l → Means r' r →
    Means (.joined l' (joint op) r') (.joined l op r)

/-- A row is grouped the same way with opened operands, and means the same. -/
theorem Reads.opened {T : OperatorTable α π ι} {T' : OperatorTable α' π ι'} {bound : Int}
    {Means : ReadTree α' π ι' → ReadTree α π ι → Prop} (hopens : T.Opens T' row joint bound Means)
    {L : Int} {ls : List (Lexeme α π ι)} {t : ReadTree α π ι} (h : T.Reads L ls t)
    (hunknown : Precedence.unknown ≤ L) (hbound : L ≤ bound) :
    ∃ t', T'.Reads L (openOperands row joint ls) t' ∧ Means t' t := by
  induction h with
  | @operand L a h =>
    obtain ⟨t', ht', hmeans⟩ := hopens.operand a (Int.le_trans hunknown h)
    refine ⟨t', ?_, hmeans⟩
    rw [openOperands, List.flatMap_singleton]
    exact ht'.mono hbound
  | @group L ls t hL h ih =>
    obtain ⟨t', ht', hmeans⟩ := ih (Int.le_refl _) (Int.le_trans hunknown hbound)
    refine ⟨t', ?_, hmeans⟩
    rw [openOperands, List.flatMap_append, List.flatMap_cons, List.flatMap_singleton]
    exact .group hL ht'
  | @signed L p ls t hL h ih =>
    have hlt := hopens.sign_lt p
    have hle : L ≤ T.sign p + 1 := by omega
    obtain ⟨t', ht', hmeans⟩ := ih (Int.le_trans hunknown hle) hlt
    refine ⟨.signed p t', ?_, hopens.signed p hmeans⟩
    rw [← hopens.sign_eq p] at ht' hL
    rw [openOperands, List.flatMap_cons]
    exact .signed hL ht'
  | @joined L op ls rs t u hL hl hr ihl ihr =>
    have hlt := hopens.joint_lt op
    have hleft := T.joint_le_left op
    have hleft' : T.left op ≤ T.joint op + 1 := by
      unfold left
      split <;> omega
    have hle : L ≤ T.joint op + 1 := by omega
    obtain ⟨t', ht', hmeans⟩ :=
      ihl (Int.le_trans hunknown (Int.le_trans hL hleft)) (Int.le_trans hleft' hlt)
    obtain ⟨u', hu', hmeans'⟩ := ihr (Int.le_trans hunknown hle) hlt
    refine ⟨.joined t' (joint op) u', ?_, hopens.joined op hmeans hmeans'⟩
    have hleft_eq : T'.left (joint op) = T.left op := by
      rw [left, left, hopens.joint_eq, hopens.chains_eq]
    rw [← hleft_eq] at ht'
    rw [← hopens.joint_eq] at hu' hL
    rw [openOperands, List.flatMap_append, List.flatMap_cons]
    exact .joined hL ht' hu'

end OperatorTable

end

end SqlCompiler
