import SqlCompiler.Proofs.Lowering.PervasiveSteps
import SqlCompiler.Proofs.Lowering.Pipelines
import SqlCompiler.Render.Statement

/-!
# Tags in a comment

The tags of a query are printed in front of its statement, in a block comment, after the delimiters
of comments have been removed from them: first those that open one, then those that close one.  What
stands on both sides of a removed delimiter is neighbours then, and may be a delimiter itself.

Main results:

- Definition `IsBlockComment`: a text is one block comment.
- Theorem `Text.strips_replaceFrom`: what removing a pair of characters leaves of a text.
- Theorem `isBlockComment_tagComment`: the comment is one if and only if no delimiter is left.
- Theorem `strippedTags_clean`: where no delimiter stands between the characters of another one,
  none is left.
- Theorem `Term.tagged_comment`: tags are collected and printed as that comment.
-/

namespace SqlCompiler

/-! ## Parts of a text -/

namespace Text

section

variable {α : Type} {p l r : List α}

/-- What has no separator in it lies on one side of it. -/
theorem infix_append_cons {sep : α} (hsep : sep ∉ p) (h : p <:+: l ++ sep :: r) :
    p <:+: l ∨ p <:+: r := by
  obtain ⟨u, v, huv⟩ := h
  rcases List.append_eq_append_iff.mp huv with ⟨as, hl, -⟩ | ⟨bs, hup, hrest⟩
  · exact .inl ⟨u, as, hl.symm⟩
  · cases bs with
    | nil => exact .inl ⟨u, [], by rw [List.append_nil, hup, List.append_nil]⟩
    | cons c bs =>
      obtain ⟨rfl, rfl⟩ : sep = c ∧ r = bs ++ v := by simpa using hrest
      rcases List.append_eq_append_iff.mp hup with ⟨as, -, hp⟩ | ⟨cs, -, hcs⟩
      · exact absurd (hp ▸ by simp) hsep
      · cases cs with
        | nil =>
          have hp : p = sep :: bs := by simpa using hcs.symm
          exact absurd (hp ▸ List.mem_cons_self ..) hsep
        | cons d cs =>
          obtain ⟨-, rfl⟩ : sep = d ∧ bs = cs ++ p := by simpa using hcs
          exact .inr (List.infix_append ..)

/-- What has no blanks in it is not touched by dropping blanks. -/
theorem infix_dropWhile_iff {blank : α → Bool} (hp : ∀ x ∈ p, blank x = false) :
    p <:+: l.dropWhile blank ↔ p <:+: l := by
  refine ⟨fun h => h.trans (List.dropWhile_suffix blank).isInfix, fun h => ?_⟩
  induction l with
  | nil => exact h
  | cons c rest ih =>
    cases hc : blank c with
    | false => rwa [List.dropWhile_cons_of_neg (by simp [hc])]
    | true =>
      rw [List.dropWhile_cons_of_pos hc]
      have hsep : c ∉ p := fun hmem => by simp [hp c hmem] at hc
      rcases infix_append_cons (l := []) hsep h with hnil | hrest
      · exact ih (hnil.trans (List.nil_infix))
      · exact ih hrest

end

/-- What has no blanks in it is not touched by trimming. -/
theorem infix_trim_iff {p : List Char} (hp : ∀ x ∈ p, isBlank x = false) (s : String) :
    p <:+: (trim s).toList ↔ p <:+: s.toList := by
  have hreverse : ∀ x ∈ p.reverse, isBlank x = false := fun x hx => hp x (List.mem_reverse.mp hx)
  unfold trim trimEnd trimStart
  rw [String.toList_ofList, ← List.reverse_infix, List.reverse_reverse,
    infix_dropWhile_iff hreverse, List.reverse_infix, String.toList_ofList, infix_dropWhile_iff hp]

/-! ## Removing a pair of characters -/

/-- A text without a pair of characters, which is removed wherever it is met from the left. -/
inductive Strips {α : Type} (a b : α) : List α → List α → Prop where
  | nil : Strips a b [] []
  | drop {l r : List α} (h : Strips a b l r) : Strips a b (a :: b :: l) r
  | keep {x : α} {l r : List α} (hne : ¬[a, b] <+: x :: l) (h : Strips a b l r) :
      Strips a b (x :: l) (x :: r)

section

variable {α : Type} {l r : List α} {a b x y : α}

/-- What comes first was first, or a removed pair was. -/
theorem Strips.head (h : Strips a b l (x :: r)) : [x] <+: l ∨ [a, b] <+: l := by
  cases h with
  | drop h => exact .inr ⟨_, rfl⟩
  | keep hne h => exact .inl ⟨_, rfl⟩

/-- Neighbours were neighbours, other than the pair, or a pair stood between them. -/
theorem Strips.neighbours (h : Strips a b l r) (hxy : [x, y] <:+: r) :
    ([x, y] <:+: l ∧ ¬(x = a ∧ y = b)) ∨ [x, a, b] <:+: l := by
  induction h with
  | nil => exact absurd (List.infix_nil.mp hxy) (by simp)
  | drop h ih =>
    rcases ih hxy with ⟨hl, hne⟩ | hl
    · exact .inl ⟨(hl.trans (List.infix_cons (List.infix_cons List.infix_rfl))), hne⟩
    · exact .inr (hl.trans (List.infix_cons (List.infix_cons List.infix_rfl)))
  | @keep _ l' _ hne h ih =>
    rcases List.infix_cons_iff.mp hxy with hhead | hrest
    · obtain ⟨rfl, hy⟩ := List.cons_prefix_cons.mp hhead
      obtain ⟨r'', rfl⟩ := hy
      rcases h.head with hl | hl
      · have hpair : [x, y] <+: x :: l' := List.cons_prefix_cons.mpr ⟨rfl, hl⟩
        refine .inl ⟨hpair.isInfix, ?_⟩
        rintro ⟨rfl, rfl⟩
        exact hne hpair
      · exact .inr (List.cons_prefix_cons.mpr ⟨rfl, hl⟩).isInfix
    · rcases ih hrest with ⟨hl, hne⟩ | hl
      · exact .inl ⟨List.infix_cons hl, hne⟩
      · exact .inr (List.infix_cons hl)

/-- The pair is left only where it stood between its own characters. -/
theorem Strips.no_pair (h : Strips a b l r) (hl : ¬[a, a, b] <:+: l) : ¬[a, b] <:+: r := by
  intro hr
  rcases h.neighbours hr with ⟨-, hne⟩ | hpair
  · exact hne ⟨rfl, rfl⟩
  · exact hl hpair

/-- The reversed pair is not made up. -/
theorem Strips.no_reversed (h : Strips a b l r) (hl : ¬[b, a] <:+: l) : ¬[b, a] <:+: r := by
  intro hr
  rcases h.neighbours hr with ⟨hpair, -⟩ | hpair
  · exact hl hpair
  · exact hl (.trans ⟨[], [b], rfl⟩ hpair)

theorem Strips.reversed_head (h : Strips a b l r) (hr : [b, a] <+: r) :
    [b, b, a] <:+: l ∨ [b, a] <+: l := by
  induction h with
  | nil => exact absurd (List.prefix_nil.mp hr) (by simp)
  | drop h ih =>
    rcases ih hr with hl | hl
    · exact .inl (hl.trans (List.infix_cons (List.infix_cons List.infix_rfl)))
    · exact .inl (List.infix_cons (List.cons_prefix_cons.mpr ⟨rfl, hl⟩).isInfix)
  | keep hne h ih =>
    obtain ⟨rfl, r', rfl⟩ := List.cons_prefix_cons.mp hr
    rcases h.head with hl | hl
    · exact .inr (List.cons_prefix_cons.mpr ⟨rfl, hl⟩)
    · exact .inr (List.cons_prefix_cons.mpr ⟨rfl, .trans ⟨[b], rfl⟩ hl⟩)

/-- Nor is the reversed pair behind its own first character. -/
theorem Strips.no_reversedTwice (h : Strips a b l r) (hl : ¬[b, b, a] <:+: l) :
    ¬[b, b, a] <:+: r := by
  induction h with
  | nil => simp
  | drop h ih =>
    exact ih fun hl' => hl (hl'.trans (List.infix_cons (List.infix_cons List.infix_rfl)))
  | keep hne h ih =>
    intro hr
    rcases List.infix_cons_iff.mp hr with hhead | hrest
    · obtain ⟨rfl, hr'⟩ := List.cons_prefix_cons.mp hhead
      rcases h.reversed_head hr' with hl' | hl'
      · exact hl (List.infix_cons hl')
      · exact hl (List.cons_prefix_cons.mpr ⟨rfl, hl'⟩).isInfix
    · exact ih (fun hl' => hl (List.infix_cons hl')) hrest

end

theorem toList_replaceAll {pattern : String} (h : pattern.isEmpty = false) (s new : String) :
    (replaceAll s pattern new).toList = replaceFrom pattern.toList new.toList 0 s.toList := by
  rw [replaceAll, h, if_neg Bool.false_ne_true, String.toList_ofList]

/-- Replacing a pair of characters by nothing removes it. -/
theorem strips_replaceFrom (a b : Char) : ∀ l, Strips a b l (replaceFrom [a, b] [] 0 l)
  | [] => .nil
  | [c] => by
    have hne : ¬[a, b] <+: [c] := fun h => by simpa using h.length_le
    have hno : [a, b].isPrefixOf [c] = false :=
      Bool.eq_false_iff.mpr fun h => hne (List.isPrefixOf_iff_prefix.mp h)
    simpa [replaceFrom, hno] using Strips.keep hne .nil
  | c :: d :: rest => by
    rw [replaceFrom]
    split
    · next h =>
      obtain ⟨rfl, hb⟩ := List.cons_prefix_cons.mp (List.isPrefixOf_iff_prefix.mp h)
      obtain ⟨rfl, -⟩ := List.cons_prefix_cons.mp hb
      exact .drop (strips_replaceFrom a b rest)
    · next h =>
      exact .keep (fun hp => h (List.isPrefixOf_iff_prefix.mpr hp))
        (strips_replaceFrom a b (d :: rest))

end Text

/-! ## Comments -/

/-- A text is one block comment: it is opened at its start only, and closed at its end only. -/
structure IsBlockComment (text : List Char) : Prop where
  delimited : ∃ body, text = ['/', '*'] ++ body ++ ['*', '/']
  opens_once : ∀ before after, text = before ++ ['/', '*'] ++ after → before = []
  closes_last : ∀ before after, text = before ++ ['*', '/'] ++ after → after = []

/-- A text without delimiters, between delimiters that are set off by blanks, is one comment; and
only such a text is. -/
theorem isBlockComment_iff (body : List Char) :
    IsBlockComment (['/', '*', ' '] ++ body ++ [' ', '*', '/']) ↔
      ¬['/', '*'] <:+: body ∧ ¬['*', '/'] <:+: body := by
  constructor
  · intro h
    refine ⟨?_, ?_⟩
    · rintro ⟨u, v, rfl⟩
      have hbefore := h.opens_once (['/', '*', ' '] ++ u) (v ++ [' ', '*', '/']) (by simp)
      exact nomatch hbefore
    · rintro ⟨u, v, rfl⟩
      have hafter := h.closes_last (['/', '*', ' '] ++ u) (v ++ [' ', '*', '/']) (by simp)
      simp at hafter
  · rintro ⟨hopen, hclose⟩
    refine ⟨⟨' ' :: body ++ [' '], by simp⟩, fun before after htext => ?_,
      fun before after htext => ?_⟩
    · cases before with
      | nil => rfl
      | cons c before =>
        obtain ⟨-, hrest⟩ : '/' = c ∧ ['*'] ++ ' ' :: (body ++ ' ' :: ['*', '/']) =
            before ++ ['/', '*'] ++ after := by simpa using htext
        have hinfix : ['/', '*'] <:+: ['*'] ++ ' ' :: (body ++ ' ' :: ['*', '/']) :=
          ⟨before, after, hrest.symm⟩
        rcases Text.infix_append_cons (by simp) hinfix with h | h
        · exact absurd h (by decide)
        · rcases Text.infix_append_cons (by simp) h with h | h
          · exact absurd h hopen
          · exact absurd h (by decide)
    · rcases List.eq_nil_or_concat after with rfl | ⟨after', c, rfl⟩
      · rfl
      · have hrest : ['/', '*'] ++ ' ' :: (body ++ ' ' :: ['*']) =
            before ++ ['*', '/'] ++ after' := by
          have hlast : (['/', '*'] ++ ' ' :: (body ++ ' ' :: ['*'])) ++ ['/'] =
              (before ++ ['*', '/'] ++ after') ++ [c] := by simpa using htext
          exact List.append_inj_left' hlast rfl
        have hinfix : ['*', '/'] <:+: ['/', '*'] ++ ' ' :: (body ++ ' ' :: ['*']) :=
          ⟨before, after', hrest.symm⟩
        rcases Text.infix_append_cons (by simp) hinfix with h | h
        · exact absurd h (by decide)
        · rcases Text.infix_append_cons (by simp) h with h | h
          · exact absurd h hclose
          · exact absurd h (by decide)

/-! ## Tags -/

/-- The text of some tags without the delimiters of comments. -/
def strippedTags (tags : List String) : String :=
  Text.replaceAll (Text.replaceAll ("\n".intercalate tags) "/*" "") "*/" ""

/-- The comment that is printed for some tags. -/
def tagComment (tags : List String) : String :=
  "/* " ++ Text.trim (strippedTags tags) ++ " */"

/-- The comment of some tags is one comment if and only if removing the delimiters has left none. -/
theorem isBlockComment_tagComment (tags : List String) :
    IsBlockComment (tagComment tags).toList ↔
      ¬['/', '*'] <:+: (strippedTags tags).toList ∧
        ¬['*', '/'] <:+: (strippedTags tags).toList := by
  have htext : (tagComment tags).toList =
      ['/', '*', ' '] ++ (Text.trim (strippedTags tags)).toList ++ [' ', '*', '/'] := by
    rw [tagComment, String.toList_append, String.toList_append]
    rfl
  have hopen : ∀ x ∈ ['/', '*'], Text.isBlank x = false := by simp [Text.isBlank]
  have hclose : ∀ x ∈ ['*', '/'], Text.isBlank x = false := by simp [Text.isBlank]
  rw [htext, isBlockComment_iff, Text.infix_trim_iff hopen, Text.infix_trim_iff hclose]

/-- What lies in the lines of a text lies in one of them. -/
theorem infix_intercalate {p : List Char} (hline : '\n' ∉ p) (hne : p ≠ []) :
    ∀ tags : List String, p <:+: ("\n".intercalate tags).toList → ∃ tag ∈ tags, p <:+: tag.toList
  | [], h => absurd (List.infix_nil.mp h) hne
  | [tag], h => ⟨tag, List.mem_singleton_self tag, by simpa using h⟩
  | tag :: next :: rest, h => by
    have htext : ("\n".intercalate (tag :: next :: rest)).toList =
        tag.toList ++ '\n' :: ("\n".intercalate (next :: rest)).toList := by
      rw [String.intercalate_cons_cons]
      simp
    rw [htext] at h
    rcases Text.infix_append_cons hline h with h | h
    · exact ⟨tag, List.mem_cons_self .., h⟩
    · obtain ⟨tag', hmem, htag⟩ := infix_intercalate hline hne (next :: rest) h
      exact ⟨tag', List.mem_cons_of_mem _ hmem, htag⟩

/-- No delimiter is left of tags in which no delimiter stands between the characters of one of its
kind. -/
theorem strippedTags_clean {tags : List String}
    (hopen : ∀ tag ∈ tags, ¬['/', '/', '*'] <:+: tag.toList)
    (hclose : ∀ tag ∈ tags, ¬['*', '*', '/'] <:+: tag.toList) :
    ¬['/', '*'] <:+: (strippedTags tags).toList ∧
      ¬['*', '/'] <:+: (strippedTags tags).toList := by
  have hlines {p : List Char} (hline : '\n' ∉ p) (hne : p ≠ [])
      (h : ∀ tag ∈ tags, ¬p <:+: tag.toList) : ¬p <:+: ("\n".intercalate tags).toList := by
    intro hp
    obtain ⟨tag, hmem, htag⟩ := infix_intercalate hline hne tags hp
    exact h tag hmem htag
  have hfirst := Text.strips_replaceFrom '/' '*' ("\n".intercalate tags).toList
  have hsecond := Text.strips_replaceFrom '*' '/'
    (Text.replaceFrom ['/', '*'] [] 0 ("\n".intercalate tags).toList)
  have htext : (strippedTags tags).toList = Text.replaceFrom ['*', '/'] [] 0
      (Text.replaceFrom ['/', '*'] [] 0 ("\n".intercalate tags).toList) := by
    rw [strippedTags, Text.toList_replaceAll rfl, Text.toList_replaceAll rfl]
    rfl
  rw [htext]
  have hnoOpen := hfirst.no_pair (hlines (by decide) (by decide) hopen)
  have hnoClose := hfirst.no_reversedTwice (hlines (by decide) (by decide) hclose)
  exact ⟨hsecond.no_reversed hnoOpen, hsecond.no_pair hnoClose⟩

/-! ## Tags of a statement -/

/-- A step of lowering leaves the tags alone. -/
def LowerM.KeepsTags {α : Type} (step : LowerM α) : Prop :=
  ∀ ctx st a st', step.Gives ctx st a st' → st'.tags = st.tags

namespace LowerM.KeepsTags

theorem closed : LowerM.Closed KeepsTags where
  pure _ _ _ _ _ h := by
    cases h
    rfl
  throw _ _ _ _ _ h := nomatch h
  bind hstep hnext ctx st b st' h := by
    obtain ⟨a, st₁, hgives, hrest⟩ := LowerM.Gives.of_bind h
    rw [hnext a ctx st₁ b st' hrest, hstep ctx st a st₁ hgives]
  read _ _ _ _ h := by
    cases h
    rfl
  store _ _ _ _ h := by
    cases h
    rfl
  withVariables hstep ctx st a st' h := hstep _ st a st' h

theorem allocate {α : Type} (f : Store → α × Store) : KeepsTags (LowerM.allocate f) := by
  intro ctx st a st' h
  cases h
  rfl

theorem selectProjection (q : QueryRef) (p : Projection) :
    KeepsTags (LowerM.selectProjection q p) :=
  closed.bind (closed.refuseGrouping p) fun _ => closed.mapM fun _ _ =>
    closed.bind (allocate _) fun _ => closed.bind closed.store fun _ => closed.pure _

end LowerM.KeepsTags

/-- A statement has the tags that were collected, a line for each. -/
theorem Lowered.toStatement_tag {lowered : Lowered} {ctx : LowerContext} {st st' : LowerState}
    {statement : Statement} {shape : ResultShape}
    (h : lowered.toStatement.Gives ctx st (statement, shape) st') (hne : st.tags ≠ []) :
    statement.tag = some ("\n".intercalate st.tags) := by
  obtain ⟨⟨body, shape'⟩, st₁, hclose, hrest⟩ := LowerM.Gives.of_bind h
  have htags := LowerM.KeepsTags.closed.close (LowerM.KeepsTags.selectProjection _ _) ctx st _ st₁
    hclose
  cases hrest
  simp [htags, hne]

/-- A sequence with tags. -/
def Term.tagged (source : Term) : List String → Term
  | [] => source
  | tag :: rest => (source.apply (.tagQuery tag) []).tagged rest

/-- Lowering a sequence with tags collects the tags in their order. -/
theorem LowerM.Gives.tagged {ctx : LowerContext} {st : LowerState} {lowered : Lowered}
    {parent : Option QueryRef} (houtcome : lowered.outcome = .sequence)
    (hcovers : st.ranking.Covers standardRules) (tags : List String) :
    ∀ {source : Term} {n : Nat} {st₁ : LowerState},
      ((lowererWithin standardRules n).sequence source parent).Gives ctx st lowered st₁ →
      st₁.ranking.Covers standardRules →
      ∃ st₂, ((lowererWithin standardRules (n + tags.length)).sequence (source.tagged tags)
        parent).Gives ctx st lowered st₂ ∧ st₂.tags = st₁.tags ++ tags := by
  induction tags with
  | nil => exact fun {source n st₁} h _ => ⟨st₁, h, (List.append_nil _).symm⟩
  | cons tag rest ih =>
    intro source n st₁ h hcovers₁
    have hlower : (modifierRule.lower (lowererWithin standardRules n)
        (source.apply (.tagQuery tag) []) parent).Gives ctx st lowered
          { st₁ with tags := st₁.tags ++ [tag] } :=
      (h.lowerSource houtcome).bind ((modify _).bind (pure lowered))
    obtain ⟨ranking, hdispatch, hcovers₂⟩ := hlower.dispatch rfl hcovers hcovers₁
    obtain ⟨st₂, hgives, htags⟩ := ih (n := n + 1) hdispatch hcovers₂
    refine ⟨st₂, ?_, by rw [htags]; simp⟩
    rwa [Nat.add_assoc, Nat.add_comm 1] at hgives

/-- The tags of a query are printed as a comment.  Lowering a sequence with tags collects them, and
any statement that is closed with these tags has their text, without the delimiters of comments and
without blanks around it, in a comment of its own line in front of it.  It is one block comment if
and only if removing the delimiters has left none, which is so if no tag has a delimiter in it that
stands between the two characters of another one of its kind. -/
theorem Term.tagged_comment {ctx : LowerContext} {st st₁ : LowerState} {lowered : Lowered}
    {parent : Option QueryRef} {source : Term} {n : Nat} {tags : List String}
    (hsource : ((lowererWithin standardRules n).sequence source parent).Gives ctx st lowered st₁)
    (houtcome : lowered.outcome = .sequence) (hcovers : st.ranking.Covers standardRules)
    (hcovers₁ : st₁.ranking.Covers standardRules) (hplain : st₁.tags = []) (hne : tags ≠ []) :
    (∃ st₂, ((lowererWithin standardRules (n + tags.length)).sequence (source.tagged tags)
        parent).Gives ctx st lowered st₂ ∧ st₂.tags = tags) ∧
      (∀ {ctx' : LowerContext} {st₃ st₄ : LowerState} {lowered' : Lowered} {statement : Statement}
        {shape : ResultShape}, st₃.tags = tags →
        lowered'.toStatement.Gives ctx' st₃ (statement, shape) st₄ → ∀ frame page,
          printTag statement.tag frame page =
            .ok ((), { page with writer := (page.writer.add (tagComment tags)).newline })) ∧
      (IsBlockComment (tagComment tags).toList ↔
        ¬['/', '*'] <:+: (strippedTags tags).toList ∧
          ¬['*', '/'] <:+: (strippedTags tags).toList) ∧
      ((∀ tag ∈ tags, ¬['/', '/', '*'] <:+: tag.toList ∧ ¬['*', '*', '/'] <:+: tag.toList) →
        IsBlockComment (tagComment tags).toList) := by
  refine ⟨?_, ?_, isBlockComment_tagComment tags, fun hclean => ?_⟩
  · obtain ⟨st₂, hgives, htags⟩ := LowerM.Gives.tagged houtcome hcovers tags hsource hcovers₁
    exact ⟨st₂, hgives, by rw [htags, hplain, List.nil_append]⟩
  · intro ctx' st₃ st₄ lowered' statement shape htags hclose frame page
    rw [Lowered.toStatement_tag hclose (htags ▸ hne), htags]
    rfl
  · exact (isBlockComment_tagComment tags).mpr
      (strippedTags_clean (fun tag hmem => (hclean tag hmem).1) fun tag hmem => (hclean tag hmem).2)

/-- Two tags on people, with a closing delimiter in one of them. -/
theorem Term.tagged_comment_everyone :
    let tags := ["everyone", "or */ no one"]
    (∃ lowered st₂, ((lowererWithin standardRules 10).sequence
        ((Term.table "Person").tagged tags) none).Gives Pipeline.personContext
          { ranking := .ofRules standardRules } lowered st₂ ∧
        ∀ {st₄ : LowerState} {statement : Statement} {shape : ResultShape},
          lowered.toStatement.Gives Pipeline.personContext st₂ (statement, shape) st₄ →
            ∀ frame page, printTag statement.tag frame page =
              .ok ((), { page with writer :=
                (page.writer.add "/* everyone\nor  no one */").newline })) ∧
      IsBlockComment "/* everyone\nor  no one */".toList := by
  intro tags
  have hmaps : Pipeline.personContext.schema.Maps "Person" Pipeline.personMapping :=
    ⟨rfl, by simp [Pipeline.personMapping]⟩
  have hcovers := Ranking.covers_ofRules standardRules
  have hordered : ({ ranking := .ofRules standardRules } : LowerState).store.Ordered :=
    Store.ordered_empty
  obtain ⟨lowered, s', hread, hrepresents⟩ := LowerM.Gives.readType .nullableIntegers
    (Pipeline.peopleOf []) hmaps none hordered
  have hlower : (tableRule.lower (lowererWithin standardRules 7) (.table "Person") none).Gives
      Pipeline.personContext { ranking := .ofRules standardRules } lowered
        { store := s', ranking := .ofRules standardRules } := hread
  obtain ⟨ranking, hsource, hcovers₁⟩ := hlower.dispatch rfl hcovers hcovers
  obtain ⟨⟨st₂, hgives, htags⟩, hprint, -, hclean⟩ :=
    tagged_comment (n := 8) hsource hrepresents.outcome hcovers hcovers₁ rfl
      (List.cons_ne_nil _ _ : tags ≠ [])
  have hcomment : tagComment tags = "/* everyone\nor  no one */" := by decide +kernel
  rw [hcomment] at hprint hclean
  exact ⟨⟨lowered, st₂, hgives, fun hclose => hprint htags hclose⟩, hclean (by decide +kernel)⟩

/-- The characters around a removed delimiter make a new one, which closes the comment. -/
example : tagComment ["**//x"] = "/* */x */" := by decide +kernel

end SqlCompiler
