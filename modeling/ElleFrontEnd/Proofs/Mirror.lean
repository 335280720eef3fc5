import ElleFrontEnd.Proofs.TraitGrammar
import ElleFrontEnd.Session.Basic

/-!
# Methods that put back what they borrow

A method that changes a register for the inside of a construct puts it back on every way out, a failure included, and
giving up what was tried takes back the place and the `>` owed there.  So a method leaves no more behind than a place
further on and the diagnostics recorded on the way (`Session.Keeps`).

What a method learns from the registers, a parser is told by its arguments.  `Mirrors` says that a method keeps its
session, and that it does what a parser does, as long as the registers say what the parser is told.
-/

namespace ElleFrontEnd

/-- `s'` is reached from `s` by reading on, and has the registers of `s`; if `silent`, nothing has been recorded. -/
structure Session.Keeps (silent : Prop) (s s' : Session) : Prop where
  registers : s'.registers = s.registers
  reading : Advances s.reading s'.reading
  errors : silent → s'.reading.errors = s.reading.errors

namespace Session.Keeps

variable {silent : Prop} {s s' s'' : Session}

theorem refl (s : Session) : Keeps silent s s := ⟨rfl, .refl _, fun _ => rfl⟩

theorem trans (h : Keeps silent s s') (h' : Keeps silent s' s'') : Keeps silent s s'' :=
  ⟨h'.registers.trans h.registers, h.reading.trans h'.reading, fun hs => (h'.errors hs).trans (h.errors hs)⟩

theorem of_silent (h : Keeps True s s') : Keeps silent s s' := ⟨h.registers, h.reading, fun _ => h.errors trivial⟩

/-- Back at the place of `s`, with what has been recorded since. -/
theorem rewindTo (h : Keeps silent s s') : Keeps silent s { s' with reading := s'.reading.rewindTo s.reading } :=
  ⟨h.registers, h.reading.rewindTo, h.errors⟩

/-- Where nothing has been recorded, going back undoes everything. -/
theorem rewindTo_eq (h : Keeps True s s') : { s' with reading := s'.reading.rewindTo s.reading } = s := by
  obtain ⟨⟨last, rest, owed, errors⟩, registers⟩ := s
  obtain ⟨⟨last', rest', owed', errors'⟩, registers'⟩ := s'
  obtain ⟨rfl, -, herrors⟩ := h
  cases herrors trivial
  rfl

end Session.Keeps

open Session (Keeps)

variable {α β : Type}

theorem Parser.bind_assoc {γ : Type} (p : Parser α) (f : α → Parser β) (g : β → Parser γ) :
    p >>= f >>= g = p >>= fun a => f a >>= g := by
  funext s
  change Parser.andThen (Parser.andThen p f) g s = Parser.andThen p (fun a => Parser.andThen (f a) g) s
  unfold Parser.andThen
  rcases p s with ⟨e | a, s'⟩ <;> rfl

/-! ### Parsers that record nothing -/

/-- The parser reads on and records nothing. -/
structure Parser.Calm (p : Parser α) : Prop where
  advances : ∀ s, Advances s (p s).2
  silent : p.Silent

namespace Parser.Calm

variable {p : Parser α}

theorem done (a : α) : (pure a : Parser α).Calm := ⟨Advances.refl, .pure a⟩

theorem bind {f : α → Parser β} (hp : p.Calm) (hf : ∀ a, (f a).Calm) : (p >>= f).Calm :=
  ⟨Parser.sequential_advances.bind hp.advances fun a => (hf a).advances, hp.silent.bind fun a => (hf a).silent⟩

theorem step {γ : Type} {l : ParseState → γ} {c : γ → Bool} {r : γ → Except Diagnostic α}
    (hp : ∀ s, p s = (r (l s), if c (l s) then s.advance else s)) : p.Calm := by
  refine ⟨fun s => ?_, fun s => ?_⟩ <;> rw [hp] <;> dsimp only <;> split
  · exact .advance s
  · exact .refl s
  · exact s.advance_errors
  · rfl

theorem onError (f : Diagnostic → Diagnostic) (hp : p.Calm) : (Parser.onError f p).Calm := by
  refine ⟨fun s => ?_, .onError f hp.silent⟩
  have h := hp.advances s
  unfold Parser.onError
  rcases hs : p s with ⟨e | a, s'⟩ <;> rw [hs] at h <;> exact h

theorem attempt (hp : p.Calm) : (Parser.attempt p).Calm := by
  refine ⟨fun s => ?_, .attempt hp.silent⟩
  have h := hp.advances s
  unfold Parser.attempt
  rcases hs : p s with ⟨e | a, s'⟩ <;> rw [hs] at h
  · exact h.rewindTo
  · exact h

theorem sequential : Sequential @Calm := ⟨done, bind⟩

theorem grow {step : α → Parser (Option α)} (hs : ∀ a, (step a).Calm) (a : α) : (Parser.grow step a).Calm :=
  ⟨fun s => (sequential.growFor hs (s.peek :: s.rest) a).advances s, .grow (fun a => (hs a).silent) a⟩

theorem collect {round : Parser (Parser.Round α)} (hr : round.Calm) : (Parser.collect round).Calm :=
  ⟨fun s => (sequential.collectFor hr (s.peek :: s.rest)).advances s, .collect hr.silent⟩

end Parser.Calm

/-- Reading on without recording anything is a trait. -/
def Trait.calm : Trait where
  holds := Parser.Calm
  done := .done
  bind := .bind
  step := fun _ _ _ => .step
  owe := fun _ => ⟨fun s => .withOwed s _, fun _ => rfl⟩
  onError := .onError
  attempt := fun _ => .attempt
  grow := .grow
  collect := .collect

/-! ### Methods and parsers -/

/-- From the registers `r`, the method keeps its session; and if the registers are as the parser is told (`fits`), it
does what the parser does. -/
structure Mirrors (silent fits : Prop) (r : Registers) (m : Method α) (p : Parser α) : Prop where
  keeps : ∀ s, Keeps silent ⟨s, r⟩ (m ⟨s, r⟩).2
  same : fits → ∀ s, m ⟨s, r⟩ = Method.reads p ⟨s, r⟩

namespace Mirrors

variable {silent fits : Prop} {r : Registers} {m m' : Method α} {p q : Parser α}

/-- What a method records may always be left open, and so may what a parser is told. -/
theorem of {fits' : Prop} (h : Mirrors silent fits r m p) (hf : fits' → fits) (hp : fits' → p = q) :
    Mirrors silent fits' r m q :=
  ⟨h.keeps, fun hfits => hp hfits ▸ h.same (hf hfits)⟩

theorem of_silent (h : Mirrors True fits r m p) : Mirrors silent fits r m p :=
  ⟨fun s => (h.keeps s).of_silent, h.same⟩

theorem done (a : α) : Mirrors silent fits r (pure a) (pure a) := ⟨fun _ => .refl _, fun _ _ => rfl⟩

theorem reads (hp : Trait.calm.holds p) : Mirrors silent fits r (liftM p) p :=
  ⟨fun s => ⟨rfl, Parser.Calm.advances hp s, fun _ => Parser.Calm.silent hp s⟩, fun _ _ => rfl⟩

/-- Whatever keeps what `s₀` had, also keeps it behind a method that keeps its session. -/
theorem keeps_bind (h : Mirrors silent fits r m p) {f : α → Method β} {s₀ : Session}
    (hf : ∀ a s, Keeps silent s₀ ⟨s, r⟩ → Keeps silent s₀ (f a ⟨s, r⟩).2) {s : ParseState}
    (hs : Keeps silent s₀ ⟨s, r⟩) : Keeps silent s₀ ((m >>= f) ⟨s, r⟩).2 := by
  change Keeps silent s₀ (Method.andThen m f ⟨s, r⟩).2
  have hm := h.keeps s
  unfold Method.andThen
  rcases hx : m ⟨s, r⟩ with ⟨e | a, s', r'⟩ <;> rw [hx] at hm
  · exact hs.trans hm
  · -- the registers are back, so that what follows starts from them again
    cases hm.registers
    exact hf a s' (hs.trans hm)

theorem same_bind (h : Mirrors silent fits r m p) (hfits : fits) {f : α → Method β} {g : α → Parser β}
    (hf : ∀ a s, f a ⟨s, r⟩ = Method.reads (g a) ⟨s, r⟩) (s : ParseState) :
    (m >>= f) ⟨s, r⟩ = Method.reads (p >>= g) ⟨s, r⟩ := by
  change Method.andThen m f ⟨s, r⟩ = Method.reads (Parser.andThen p g) ⟨s, r⟩
  unfold Method.andThen Method.reads Parser.andThen
  rw [h.same hfits s]
  unfold Method.reads
  rcases p s with ⟨e | a, s'⟩
  · rfl
  · exact hf a s'

theorem look (l : ParseState → α) : Mirrors silent fits r (liftM (Parser.look l)) (Parser.look l) :=
  ⟨fun _ => .refl _, fun _ _ => rfl⟩

/-- A failure where the parser stands. -/
theorem stuck {e : ParseState → Diagnostic} :
    Mirrors silent fits r (Method.reads fun s => (.error (e s), s)) (fun s => (.error (e s), s) : Parser α) :=
  ⟨fun _ => .refl _, fun _ _ => rfl⟩

theorem bind {f : α → Method β} {g : α → Parser β} (h : Mirrors silent fits r m p)
    (hf : ∀ a, Mirrors silent fits r (f a) (g a)) : Mirrors silent fits r (m >>= f) (p >>= g) :=
  ⟨fun _ => h.keeps_bind (fun a s' hs' => hs'.trans ((hf a).keeps s')) (.refl _),
    fun hfits => h.same_bind hfits fun a => (hf a).same hfits⟩

/-- Behind a parser that records nothing. -/
theorem after (hp : Trait.calm.holds p) {f : α → Method β} {g : α → Parser β}
    (hf : ∀ a, Mirrors silent fits r (f a) (g a)) : Mirrors silent fits r (liftM p >>= f) (p >>= g) :=
  (reads hp).bind hf

theorem looking {l : ParseState → α} {f : α → Method β} {g : α → Parser β}
    (hf : ∀ a, Mirrors silent fits r (f a) (g a)) :
    Mirrors silent fits r (liftM (Parser.look l) >>= f) (Parser.look l >>= g) :=
  (look l).bind hf

/-- A method that goes by a register, and a parser that has been told of it. -/
theorem asking {γ : Type} {l : Registers → γ} {f : γ → Method α} (h : Mirrors silent fits r (f (l r)) p) :
    Mirrors silent fits r (Method.register l >>= f) p := ⟨h.keeps, h.same⟩

theorem ite {c : Prop} [Decidable c] (h : Mirrors silent fits r m p) (h' : Mirrors silent fits r m' q) :
    Mirrors silent fits r (if c then m else m') (if c then p else q) := by
  split
  · exact h
  · exact h'

/-- A result that is built with the stretch it was read from. -/
theorem spanned (h : Mirrors silent fits r m p) {start : Nat} {build : α → Span → β} :
    Mirrors silent fits r (do let a ← m; pure (build a (← Parser.spanFrom start)))
      (do let a ← p; pure (build a (← Parser.spanFrom start))) :=
  h.bind fun _ => looking fun _ => done _

/-- A result that is built with the stretch up to here. -/
theorem doneFrom {start : Nat} {build : Span → α} :
    Mirrors silent fits r (do pure (build (← Parser.spanFrom start))) (do pure (build (← Parser.spanFrom start))) :=
  looking fun _ => done _

/-! ### Borrowed registers -/

/-- What the method does inside, it does from the registers set for it; behind it they are put back. -/
theorem within {enter : Registers → Registers} {leave : Registers → Registers → Registers}
    (h : Mirrors silent fits (enter r) m p) (hback : leave r (enter r) = r) :
    Mirrors silent fits r (Method.within enter leave m) p := by
  refine ⟨fun s => ?_, fun hfits s => ?_⟩
  · have hm := h.keeps s
    refine ⟨?_, hm.reading, hm.errors⟩
    exact (congrArg (leave r) hm.registers).trans hback
  · unfold Method.within
    rw [h.same hfits s]
    exact congrArg (fun r' => ((p s).1, Session.mk (p s).2 r')) hback

theorem withHeader {header inner : Bool} (h : Mirrors silent fits { r with header := inner } m p) :
    Mirrors silent fits { r with header } (Method.withHeader inner m) p := by
  unfold Method.withHeader
  exact within h rfl

theorem underAngle (h : Mirrors silent fits { r with angles := r.angles + 1 } m p) :
    Mirrors silent fits r (Method.underAngle m) p := h.within rfl

theorem deeper (h : Mirrors silent fits { r with depth := r.depth + 1 } m p) :
    Mirrors silent fits r (Method.deeper m) p := h.within rfl

/-- One level further in, or the failure where the limit does not allow for it. -/
theorem nested (hnone : r.room = 0 → p = Parser.tooDeep r.options.maxDepth)
    (hsome : ∀ room, r.room = room + 1 → Mirrors silent fits { r with depth := r.depth + 1 } m p) :
    Mirrors silent fits r (Method.nested m) p := by
  refine asking (asking ?_)
  by_cases hlimit : r.options.maxDepth ≤ r.depth
  · rw [if_pos hlimit, hnone (Nat.sub_eq_zero_of_le hlimit)]
    exact stuck
  · rw [if_neg hlimit]
    exact (hsome (r.options.maxDepth - (r.depth + 1)) (by unfold Registers.room; omega)).deeper

/-! ### Failures -/

theorem onError (f : Diagnostic → Diagnostic) (h : Mirrors silent fits r m p) :
    Mirrors silent fits r (Method.onError f m) (Parser.onError f p) := by
  refine ⟨fun s => ?_, fun hfits s => ?_⟩
  · have hm := h.keeps s
    unfold Method.onError
    rcases hs : m ⟨s, r⟩ with ⟨e | a, s'⟩ <;> rw [hs] at hm <;> exact hm
  · unfold Method.onError Method.reads Parser.onError
    rw [h.same hfits s]
    unfold Method.reads
    rcases p s with ⟨e | a, s'⟩ <;> rfl

theorem attempt (h : Mirrors silent fits r m p) : Mirrors silent fits r (Method.attempt m) (Parser.attempt p) := by
  refine ⟨fun s => ?_, fun hfits s => ?_⟩
  · have hm := h.keeps s
    unfold Method.attempt
    rcases hs : m ⟨s, r⟩ with ⟨e | a, s'⟩ <;> rw [hs] at hm
    · exact hm.rewindTo
    · exact hm
  · unfold Method.attempt Method.reads Parser.attempt
    rw [h.same hfits s]
    unfold Method.reads
    rcases p s with ⟨e | a, s'⟩ <;> rfl

theorem outcome (h : Mirrors silent fits r m p) : Mirrors silent fits r (Method.outcome m) (Parser.outcome p) := by
  refine ⟨fun s => ?_, fun hfits s => ?_⟩
  · have hm := h.keeps s
    unfold Method.outcome
    rcases hs : m ⟨s, r⟩ with ⟨e | a, s'⟩ <;> rw [hs] at hm <;> exact hm
  · unfold Method.outcome Method.reads Parser.outcome
    rw [h.same hfits s]
    unfold Method.reads
    rcases p s with ⟨e | a, s'⟩ <;> rfl

/-! ### Repetition -/

theorem growFor {step : α → Method (Option α)} {step' : α → Parser (Option α)}
    (hs : ∀ a, Mirrors silent fits r (step a) (step' a)) (budget : List Token) (a : α) :
    Mirrors silent fits r (Method.growFor step budget a) (Parser.growFor step' budget a) := by
  induction budget generalizing a with
  | nil => exact done a
  | cons t budget ih =>
    refine (hs a).bind fun o => ?_
    cases o with
    | none => exact done a
    | some a' => exact ih a'

theorem grow {step : α → Method (Option α)} {step' : α → Parser (Option α)}
    (hs : ∀ a, Mirrors silent fits r (step a) (step' a)) (a : α) :
    Mirrors silent fits r (Method.grow step a) (Parser.grow step' a) :=
  ⟨fun s => (growFor hs (s.peek :: s.rest) a).keeps s, fun hfits s => (growFor hs (s.peek :: s.rest) a).same hfits s⟩

theorem collectFor {round : Method (Parser.Round α)} {round' : Parser (Parser.Round α)}
    (hr : Mirrors silent fits r round round') (budget : List Token) :
    Mirrors silent fits r (Method.collectFor round budget) (Parser.collectFor round' budget) := by
  induction budget with
  | nil => exact done []
  | cons t budget ih =>
    refine hr.bind fun o => ?_
    cases o with
    | stop => exact done []
    | last a => exact done [a]
    | more a => exact ih.bind fun as => done (a :: as)
    | none => exact ih

theorem collect {round : Method (Parser.Round α)} {round' : Parser (Parser.Round α)}
    (hr : Mirrors silent fits r round round') :
    Mirrors silent fits r (Method.collect round) (Parser.collect round') :=
  ⟨fun s => (collectFor hr (s.peek :: s.rest)).keeps s, fun hfits s => (collectFor hr (s.peek :: s.rest)).same hfits s⟩

theorem commaList (close : Punctuation) (h : Mirrors silent fits r m p) :
    Mirrors silent fits r (Method.commaList close m) (Parser.commaList close p) := by
  refine collect (looking fun _ => ite (done _) (looking fun _ => ite (done _) ?_))
  exact h.bind fun _ => after (Trait.accept _) fun _ => ite (done _) (done _)

end Mirrors

/-! ### Going back -/

/-- From any place reached from `s₀`, the method reads on from `s₀`, perhaps after going back to it. -/
structure MirrorsFrom (silent fits : Prop) (s₀ : ParseState) (r : Registers) (m : Method α) (p : Parser α) :
    Prop where
  keeps : ∀ s, Keeps silent ⟨s₀, r⟩ ⟨s, r⟩ → Keeps silent ⟨s₀, r⟩ (m ⟨s, r⟩).2
  same : fits → ∀ s, m ⟨s, r⟩ = Method.reads p ⟨s, r⟩

namespace MirrorsFrom

variable {silent fits : Prop} {s₀ : ParseState} {r : Registers} {m m' : Method α} {p q : Parser α}

/-- Reading on never leaves the place reached. -/
theorem on (h : Mirrors silent fits r m p) : MirrorsFrom silent fits s₀ r m p :=
  ⟨fun s hs => hs.trans (h.keeps s), h.same⟩

theorem bind (h : Mirrors silent fits r m p) {f : α → Method β} {g : α → Parser β}
    (hf : ∀ a, MirrorsFrom silent fits s₀ r (f a) (g a)) : MirrorsFrom silent fits s₀ r (m >>= f) (p >>= g) :=
  ⟨fun _ hs => h.keeps_bind (fun a => (hf a).keeps) hs, fun hfits => h.same_bind hfits fun a => (hf a).same hfits⟩

theorem ite {c : Prop} [Decidable c] (h : MirrorsFrom silent fits s₀ r m p) (h' : MirrorsFrom silent fits s₀ r m' q) :
    MirrorsFrom silent fits s₀ r (if c then m else m') (if c then p else q) := by
  split
  · exact h
  · exact h'

/-- Giving up, with nothing read. -/
theorem rewound : MirrorsFrom silent fits s₀ r (do Parser.change (·.rewindTo s₀); pure (none : Option α))
    (do Parser.change (·.rewindTo s₀); pure none) :=
  ⟨fun _ hs => hs.rewindTo, fun _ _ => rfl⟩

/-- What remembers its place may go back to it. -/
theorem saving {f : ParseState → Method α} {g : ParseState → Parser α}
    (h : ∀ s, MirrorsFrom silent fits s r (f s) (g s)) :
    Mirrors silent fits r (liftM (Parser.look id) >>= f) (Parser.look id >>= g) :=
  ⟨fun s => (h s).keeps s (.refl _), fun hfits s => (h s).same hfits s⟩

end MirrorsFrom

end ElleFrontEnd
