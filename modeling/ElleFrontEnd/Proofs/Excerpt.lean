import ElleFrontEnd.Proofs.LineEnds
import ElleFrontEnd.Proofs.Transparent
import ElleFrontEnd.Proofs.TwinRun

/-!
# Excerpts of a source

What a source reads from the beginning of one token to the end of another is lexed as those tokens again, whatever
stands behind it, unless that prolongs the last of them (`exists_excerpt`).  A break prolongs none.

The tokens of the excerpt stand elsewhere, but as far from each other as in the source (`sameLayout_placed`).
-/

namespace ElleFrontEnd

/-! ### Lexemes before another text -/

theorem blockCommentLength?_take {cs : List Char} {n : Nat} (h : blockCommentLength? cs = some n) (ds : List Char) :
    blockCommentLength? (cs.take n ++ ds) = some n := by
  fun_induction blockCommentLength? cs generalizing n with
  | case1 => simp at h
  | case2 cs =>
    obtain rfl : 2 = n := by simpa using h
    rfl
  | case3 c cs hne ih =>
    obtain ⟨m, hm, rfl⟩ := Option.map_eq_some_iff.1 h
    rw [List.take_succ_cons, List.cons_append, blockCommentLength?, ih hm]
    · rfl
    · rintro tail rfl htail
      obtain ⟨body, rest, rfl, rfl, -⟩ := blockCommentLength?_reads hm
      cases body with
      | nil => cases htail
      | cons d body => exact hne _ rfl (by rw [(List.cons.inj htail).1]; rfl)

theorem slashAt_comment {cs ds : List Char} {n : Nat} (h : slashAt cs = .comment n)
    (hd : ds.head? = (cs.drop n).head?) : slashAt (cs.take n ++ ds) = .comment n := by
  unfold slashAt at h
  split at h
  · rename_i cs
    obtain rfl : (cs.takeWhile (· ≠ '\n')).length + 1 = n := congrArg Lexeme.more h
    rw [List.drop_succ_cons] at hd
    have hstop : ∀ c ∈ ds.head?, decide (c ≠ '\n') = false := by
      rw [hd, List.append_cancel_left ((takeWhile_append_drop _ cs).trans List.takeWhile_append_dropWhile.symm)]
      intro c hc
      have := List.head?_dropWhile_not (fun c => decide (c ≠ '\n')) cs
      rwa [Option.mem_def.1 hc] at this
    rw [List.take_succ_cons, ← takeWhile_eq_take, List.cons_append, slashAt,
      takeWhile_append_halt of_mem_takeWhile hstop]
  · rename_i cs
    split at h
    · rename_i m hm
      obtain rfl : m + 1 = n := congrArg Lexeme.more h
      rw [List.take_succ_cons, List.cons_append, slashAt, blockCommentLength?_take hm]
    · cases h
  · unfold symbolAt at h
    split at h <;> cases h

/-- What stands between tokens is cut alike before a text that begins alike. -/
theorem lexemeAt_filler {c : Char} {cs ds : List Char} (hf : (lexemeAt c cs).faults = [])
    (ht : (lexemeAt c cs).token = none) (hd : ds.head? = (cs.drop (lexemeAt c cs).more).head?) :
    lexemeAt c (cs.take (lexemeAt c cs).more ++ ds) = lexemeAt c cs := by
  rcases lexemeAt_of_none hf ht with ⟨hc, hl⟩ | ⟨rfl, d, rest, rfl, hn, hl⟩ | ⟨rfl, rest, rfl, hl⟩ | ⟨rfl, m, hl, -⟩
  · rw [hl, lexemeAt_of_isBlank hc]
  · rw [hl] at hd ⊢
    simp only [Lexeme.blank, List.take_succ_cons, List.take_zero, List.drop_succ_cons, List.drop_zero,
      List.cons_append, List.nil_append] at hd ⊢
    rw [lexemeAt_backslash]
    split
    · rename_i tail heq
      obtain ⟨rfl, rfl⟩ := List.cons.inj heq
      obtain ⟨tail', rfl⟩ : ∃ tail', rest = '\n' :: tail' := List.head?_eq_some_iff.1 hd.symm
      simp [lexemeAt_backslash, Lexeme.blank] at hl
    · rfl
    · rfl
    · rename_i hnone₁ hnone₂
      rcases hn with rfl | rfl
      · exact absurd rfl (hnone₁ ds)
      · exact absurd rfl (hnone₂ ds)
  · rw [hl]
    rfl
  · rw [hl] at hd ⊢
    exact slashAt_comment hl hd

/-- The lexemes behind others are those of the text behind them. -/
theorem lexemes_behind {text : List Char} {before after : List Cut} (h : lexemes text = before ++ after) :
    lexemes (after.flatMap Cut.taken) = after := by
  induction before generalizing text with
  | nil => rw [← List.nil_append after, ← h, flatMap_taken_lexemes]
  | cons cut before ih =>
    cases text with
    | nil => cases h
    | cons c cs =>
      rw [lexemes_cons, List.cons_append] at h
      exact ih (List.cons.inj h).2

/-- The first lexeme of a text has taken what stands before the rest. -/
theorem lexemes_first {cut : Cut} {cuts : List Cut} {rest : List Char}
    (h : lexemes (cut.taken ++ rest) = cut :: cuts) : ∃ c text, cut.taken = c :: text ∧
      cut.lexeme = lexemeAt c (text ++ rest) ∧ (text ++ rest).take (lexemeAt c (text ++ rest)).more = text ∧
        (text ++ rest).drop (lexemeAt c (text ++ rest)).more = rest ∧ lexemes rest = cuts := by
  obtain ⟨c, cs, hcut⟩ := exists_lexemeAt (show cut ∈ lexemes (cut.taken ++ rest) by rw [h]; exact List.mem_cons_self)
  obtain ⟨text, htaken⟩ : ∃ text, cut.taken = c :: text := ⟨_, by rw [hcut]⟩
  rw [htaken, List.cons_append, lexemes_cons] at h
  obtain ⟨rfl, hcuts⟩ := List.cons.inj h
  have htake := (List.cons.inj htaken).2
  have hdrop : (text ++ rest).drop (lexemeAt c (text ++ rest)).more = rest := by
    have := List.take_append_drop (lexemeAt c (text ++ rest)).more (text ++ rest)
    rw [htake] at this
    exact List.append_cancel_left this
  exact ⟨c, text, htaken, rfl, htake, hdrop, by rw [← hcuts, hdrop]⟩

/-- Lexemes without faults that end with a token are cut off again before a text with which no token goes on. -/
theorem lexemes_append_of_fades {cuts : List Cut} {post ds : List Char}
    (h : lexemes (cuts.flatMap Cut.taken ++ post) = cuts ++ lexemes post)
    (hf : ∀ cut ∈ cuts, cut.lexeme.faults = []) (hlast : ∀ cut ∈ cuts.getLast?, cut.lexeme.token.isSome = true)
    (hd : Fades post ds) : lexemes (cuts.flatMap Cut.taken ++ ds) = cuts ++ lexemes ds := by
  induction cuts with
  | nil => rfl
  | cons cut cuts ih =>
    obtain ⟨hcut, hcuts⟩ := List.forall_mem_cons.1 hf
    rw [List.flatMap_cons, List.append_assoc] at h ⊢
    obtain ⟨c, text, htaken, hl, htake, hdrop, htail⟩ := lexemes_first h
    have hlater := ih htail hcuts fun cut hc => hlast cut (by rw [List.getLast?_cons]; simp [Option.mem_def.1 hc])
    have hfades := hd.append (cuts.flatMap Cut.taken)
    -- the first lexeme is cut off again
    have hagain : lexemeAt c (text ++ (cuts.flatMap Cut.taken ++ ds)) = cut.lexeme ∧ cut.lexeme.more = text.length := by
      cases ht : cut.lexeme.token with
      | none =>
        obtain ⟨next, later, rfl⟩ : ∃ next later, cuts = next :: later := by
          cases cuts with
          | nil => simp [ht] at hlast
          | cons next later => exact ⟨next, later, rfl⟩
        rw [List.flatMap_cons, List.append_assoc] at htail
        obtain ⟨d, text', htaken', -⟩ := lexemes_first htail
        have hhead : ((next :: later).flatMap Cut.taken ++ ds).head? =
            ((text ++ ((next :: later).flatMap Cut.taken ++ post)).drop
              (lexemeAt c (text ++ ((next :: later).flatMap Cut.taken ++ post))).more).head? := by
          rw [hdrop]
          simp [htaken']
        have hread := lexemeAt_filler (hl ▸ hcut) (hl ▸ ht) hhead
        rw [htake, ← hl] at hread
        refine ⟨hread, ?_⟩
        have hlength := congrArg List.length hdrop
        rw [← hl] at hlength
        simp only [List.flatMap_cons, htaken', List.length_drop, List.length_append, List.length_cons] at hlength
        omega
      | some k =>
        obtain ⟨tail, rest, hsplit, hread, hlasts⟩ := lexemeAt_fades (hl ▸ ht) (hl ▸ hcut)
        have hmore : (lexemeAt c (text ++ (cuts.flatMap Cut.taken ++ post))).more = tail.length := by rw [hread]; rfl
        rw [hmore, hsplit] at htake hdrop
        obtain rfl : tail = text := by simpa using htake
        obtain rfl : rest = _ := by simpa using hdrop
        exact ⟨by rw [hlasts _ hfades, hl, hread], by rw [hl, hmore]⟩
    have hcut : (⟨c :: text, cut.lexeme⟩ : Cut) = cut := by rw [← htaken]
    rw [htaken, List.cons_append, lexemes_cons, hagain.1, hagain.2, List.take_left, List.drop_left, hlater, hcut]
    rfl

/-! ### The lexemes of some tokens -/

theorem Place.after_append (place : Place) (a b : List Char) : place.after (a ++ b) = (place.after a).after b := by
  simp [Place.after, List.foldl_append]

/-- What stands before the first token can be left out. -/
theorem placed_lead {place : Place} {cuts : List Cut} {t : Token} {after : List Token}
    (h : (placed place cuts).tokens = t :: after) (ht : t.kind ≠ .eof) : ∃ filler rest, cuts = filler ++ rest ∧
      (placed (place.after (filler.flatMap Cut.taken)) rest).tokens = t :: after ∧
        t.span.start = (place.after (filler.flatMap Cut.taken)).offset ∧
          ∀ cut ∈ rest.head?, cut.lexeme.token = some t.kind := by
  induction cuts generalizing place with
  | nil => exact absurd (congrArg Token.kind (List.cons.inj h).1.symm) ht
  | cons cut cuts ih =>
    cases htoken : cut.lexeme.token with
    | none =>
      rw [placed_cons_none htoken] at h
      obtain ⟨filler, rest, rfl, hrest⟩ := ih h
      refine ⟨cut :: filler, rest, rfl, ?_⟩
      rw [List.flatMap_cons, Place.after_append]
      exact hrest
    | some k =>
      refine ⟨[], cut :: cuts, rfl, h, ?_⟩
      rw [placed_cons_some htoken] at h
      rw [← (List.cons.inj h).1]
      exact ⟨rfl, by simpa using htoken⟩

/-- The lexemes up to the last of some tokens yield these tokens, whatever follows. -/
theorem placed_split {place : Place} {cuts : List Cut} {before after : List Token}
    (h : (placed place cuts).tokens = before ++ after) (hb : ∀ t ∈ before, t.kind ≠ .eof) : ∃ first rest,
      cuts = first ++ rest ∧ (first = [] ↔ before = []) ∧
      (∀ cut ∈ first.getLast?, cut.lexeme.token.isSome = true) ∧
      (∀ t ∈ before.getLast?, t.span.stop = (place.after (first.flatMap Cut.taken)).offset) ∧
      (placed (place.after (first.flatMap Cut.taken)) rest).tokens = after ∧
      ∀ cuts', (placed place (first ++ cuts')).tokens =
        before ++ (placed (place.after (first.flatMap Cut.taken)) cuts').tokens := by
  induction cuts generalizing place before with
  | nil =>
    cases before with
    | nil => exact ⟨[], [], rfl, by simp, by simp, by simp, h, fun _ => rfl⟩
    | cons t before =>
      exact absurd (congrArg Token.kind (List.cons.inj h).1.symm) (hb t List.mem_cons_self)
  | cons cut cuts ih =>
    cases before with
    | nil => exact ⟨[], cut :: cuts, rfl, by simp, by simp, by simp, h, fun _ => rfl⟩
    | cons t before =>
      cases htoken : cut.lexeme.token with
      | none =>
        rw [placed_cons_none htoken] at h
        obtain ⟨first, rest, rfl, hnil, hlast, hstop, hrest, hagain⟩ := ih h hb
        have hne : first ≠ [] := fun h => List.cons_ne_nil t before (hnil.1 h)
        refine ⟨cut :: first, rest, rfl, by simp, ?_, ?_⟩
        · rwa [List.getLast?_cons_of_ne_nil hne]
        · rw [List.flatMap_cons, Place.after_append]
          refine ⟨hstop, hrest, fun cuts' => ?_⟩
          rw [List.cons_append, placed_cons_none htoken, hagain]
      | some k =>
        rw [placed_cons_some htoken, List.cons_append] at h
        obtain ⟨rfl, hlater⟩ := List.cons.inj h
        obtain ⟨first, rest, rfl, hnil, hlast, hstop, hrest, hagain⟩ :=
          ih hlater fun t ht => hb t (List.mem_cons_of_mem _ ht)
        refine ⟨cut :: first, rest, rfl, by simp, ?_, ?_⟩
        · rw [List.getLast?_cons]
          cases hfirst : first.getLast? with
          | none => simp [htoken]
          | some last => simpa using hlast last hfirst
        · rw [List.flatMap_cons, Place.after_append]
          refine ⟨?_, hrest, fun cuts' => ?_⟩
          · rw [List.getLast?_cons]
            cases hbefore : before.getLast? with
            | none =>
              obtain rfl := hnil.2 (List.getLast?_eq_none_iff.1 hbefore)
              simp [Cut.span, Place.after]
            | some last => simpa using hstop last hbefore
          · rw [List.cons_append, placed_cons_some htoken, hagain, List.cons_append]

/-! ### Excerpts -/

/-- Lexemes at a place of a source that yield some of its tokens, and what the source reads there. -/
structure IsExcerpt (part : List Char) (used : List Token) (place : Place) (cuts : List Cut) : Prop where
  lead : cuts.head?.bind (·.lexeme.token) = used.head?.map Token.kind
  taken : cuts.flatMap Cut.taken = part
  faults : ∀ cut ∈ cuts, cut.lexeme.faults = []
  alone : lexemes part = cuts
  again : ∀ {c : Char} {ds : List Char}, isBreak c = true → lexemes (part ++ c :: ds) = cuts ++ lexemes (c :: ds)
  tokens : ∀ rest, (placed place (cuts ++ rest)).tokens = used ++ (placed (place.after part) rest).tokens

/-- What a source reads from one token to another is lexed as the tokens between them, before any break and at the end
of a source. -/
theorem exists_excerpt {source : String} (herrors : (lex source).errors = []) {before after : List Token}
    {first last : Token} {used : List Token} (h : (lex source).tokens = before ++ (used ++ after))
    (hkinds : ∀ t ∈ before ++ used, t.kind ≠ .eof) (hfirst : used.head? = some first)
    (hlast : used.getLast? = some last) : ∃ part place cuts,
      (⟨first.span.start, last.span.stop⟩ : Span).Holds source.toList part ∧ IsExcerpt part used place cuts := by
  obtain ⟨hbefore, hused⟩ := List.forall_mem_append.1 hkinds
  obtain ⟨tail, rfl⟩ := List.head?_eq_some_iff.1 hfirst
  -- the lexemes before, those between the last of them and the first of the excerpt, and those of the excerpt
  obtain ⟨cuts₁, cuts₂, hcuts, -, -, -, htokens₂, -⟩ := placed_split h hbefore
  obtain ⟨filler, cuts₃, rfl, htokens₃, hstart, hlead⟩ := placed_lead htokens₂ (hused first List.mem_cons_self)
  obtain ⟨cuts, post, rfl, hnil, hend, hstop, -, htokens⟩ := placed_split htokens₃ hused
  rw [← List.append_assoc] at hcuts
  have hpost := lexemes_behind (hcuts.trans (List.append_assoc _ _ _).symm)
  have hwhole := lexemes_behind hcuts
  rw [List.flatMap_append] at hwhole
  have hfaults : ∀ cut ∈ cuts, cut.lexeme.faults = [] := fun cut hc =>
    errors_placed.1 herrors cut (by rw [hcuts]; simp [hc])
  have hagain {ds : List Char} (hd : Fades (post.flatMap Cut.taken) ds) :=
    lexemes_append_of_fades (by rw [hwhole, hpost]) hfaults hend hd
  have hfirst : cuts.head?.bind (·.lexeme.token) = some first.kind := by
    cases cuts with
    | nil => cases hnil.1 rfl
    | cons cut cuts => exact hlead cut rfl
  refine ⟨cuts.flatMap Cut.taken, _, cuts, ?_, hfirst, rfl, hfaults, ?_, fun hc => hagain (.of_isBreak hc _ _), htokens⟩
  · refine ⟨(cuts₁ ++ filler).flatMap Cut.taken, post.flatMap Cut.taken, ?_, ?_⟩
    · rw [← List.flatMap_append, ← List.flatMap_append, ← hcuts, flatMap_taken_lexemes]
    · have hplace : byteLength ((cuts₁ ++ filler).flatMap Cut.taken) =
          ((Place.start.after (cuts₁.flatMap Cut.taken)).after (filler.flatMap Cut.taken)).offset := by
        rw [Place.offset_after, Place.offset_after, List.flatMap_append, byteLength_append]
        simp [Place.start]
      rw [hstop last hlast, hstart, Place.offset_after (_ : Place) (cuts.flatMap Cut.taken), hplace]
  · have hnil : Fades (post.flatMap Cut.taken) [] := fun text _ h => by simp [List.prefix_nil.1 h]
    simpa using hagain hnil

/-! ### Elsewhere -/

/-- Tokens that are further on touch alike. -/
theorem touchAt_of_moved {ts us : List Token} {n : Nat} (h : ts.map Token.span = us.map fun u => u.span.moved n)
    (i : Nat) : touchAt ts i = touchAt us i := by
  have hspan (i : Nat) : ts[i]?.map Token.span = us[i]?.map fun u => u.span.moved n := by
    simpa using congrArg (fun spans : List Span => spans[i]?) h
  have hi := hspan i
  have hnext := hspan (i + 1)
  unfold touchAt
  cases hti : ts[i]? <;> cases hui : us[i]? <;> cases htn : ts[i + 1]? <;> cases hun : us[i + 1]? <;>
    simp_all [Token.isAdjacentTo, Span.moved]

theorem spans_of_offset {place place' : Place} (h : place'.offset = place.offset) (cuts : List Cut) :
    (placed place' cuts).spans = (placed place cuts).spans := by
  induction cuts generalizing place place' with
  | nil => simp [Lexed.spans, placed, h]
  | cons cut cuts ih =>
    have hoffset : (place'.after cut.taken).offset = (place.after cut.taken).offset := by
      rw [Place.offset_after, Place.offset_after, h]
    have hlater := ih hoffset
    cases htoken : cut.lexeme.token with
    | none => rw [spans_cons_none htoken, spans_cons_none htoken, hlater]
    | some k => rw [spans_cons_some htoken, spans_cons_some htoken, hlater, Cut.span_eq, Cut.span_eq, h]

/-- The same lexemes yield tokens in the same order and at the same distances wherever they stand. -/
theorem sameLayout_placed (place place' : Place) (cuts : List Cut) :
    SameLayout (placed place cuts).tokens (placed place' cuts).tokens := by
  have hspans (place : Place) :
      (placed place cuts).tokens.map Token.span =
        (placed .start cuts).tokens.map fun u => u.span.moved place.offset := by
    have hplace : place.offset = (Place.start.moved place.offset 0).offset := by simp [Place.moved, Place.start]
    have hoffset := spans_of_offset hplace cuts
    rw [placed_moved] at hoffset
    simpa [Lexed.spans, Lexed.moved, Token.moved, Function.comp_def] using congrArg (List.map Prod.snd) hoffset
  refine ⟨by rw [kinds_placed, kinds_placed], fun i _ _ => ?_⟩
  rw [touchAt_of_moved (hspans place), touchAt_of_moved (hspans place')]

end ElleFrontEnd
