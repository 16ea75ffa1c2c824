import BlockLang.Tree.Parser.Reads
import BlockLang.Proofs.Fault
import BlockLang.Proofs.Tree.MadeOf

/-!
What is read from lexemes is made of them, and what cannot be read is reported where one of them is.
-/

namespace BlockLang

structure Lexeme.Of (m : Material) (l : Lexeme) : Prop where
  token    : m.token l.token
  leading  : ∀ c ∈ l.leading, m.comment c
  trailing : ∀ c ∈ l.trailing, m.comment c

def Lexemes.Of (m : Material) (s : List Lexeme) : Prop :=
  ∀ l ∈ s, l.Of m

-- The names among some lexemes satisfy `P`.
def Lexemes.Names (P : String → Prop) (s : List Lexeme) : Prop :=
  ∀ l ∈ s, l.token.kind = .ident → P l.token.text

variable {m : Material} {s : List Lexeme} {l : Lexeme} {α β : Type}

open Lexemes

namespace Lexemes.Of

theorem first (h : Of m (l :: s)) : l.Of m :=
  h l (List.mem_cons_self ..)

theorem head (h : Of m (l :: s)) : m.token l.token :=
  h.first.token

theorem tail (h : Of m (l :: s)) : Of m s :=
  (List.forall_mem_cons.mp h).2

-- The name that a token of the right kind is.
theorem name (h : Of m (l :: s)) (hk : l.token.kind = .ident) :
    m.token (Name.identifier ⟨l.token.text, l.token.span⟩) := by
  have he : Name.identifier ⟨l.token.text, l.token.span⟩ = l.token := by
    simp [Name.identifier, ← hk]
  exact he ▸ h.head

end Lexemes.Of

namespace Parser

-- Where a parser reports what it cannot read, and what it can complain about.
structure Blames (m : Material) (stop : Token) (e : SyntaxError) : Prop where
  place : m.Starts e.span ∨ e.span = stop.span
  fault : e.fault.isInternal = false

variable {stop : Token} {Q : α → Prop} {Q' : β → Prop} {fault : Fault}

theorem yields_fail (hs : Of m s) (hf : fault.isInternal = false) :
    Yields Q (Blames m stop) (fail stop s fault) := by
  cases s
  case nil => exact ⟨.inr rfl, hf⟩
  case cons => exact ⟨.inl (Material.starts_span hs.head), hf⟩

-- What is read satisfies `Q`, and what is left is of the same material.
def Reads.Keeps (m : Material) (stop : Token) (Q : α → Prop) (read : Reads α) : Prop :=
  ∀ s, Of m s → Yields (fun x => Q x.value ∧ Of m x.rest) (Blames m stop) (read s)

namespace Reads.Keeps

theorem pure {a : α} (h : Q a) : Keeps m stop Q (pure a) :=
  fun _ hs => ⟨h, hs⟩

theorem bind {read : Reads α} {next : α → Reads β} (h : Keeps m stop Q read)
    (h' : ∀ a, Q a → Keeps m stop Q' (next a)) : Keeps m stop Q' (read >>= next) := by
  intro s hs
  change Yields _ _ (andThen read next s)
  have hr := h s hs
  unfold andThen
  split
  case h_1 he => exact hr.fault he
  case h_2 a r _ hx =>
    have ⟨ha, hr⟩ := hr.value hx
    exact (h' a ha r hr).map fun _ hy => hy

theorem upcoming : Keeps m stop (Of m) upcoming :=
  fun _ hs => ⟨hs, hs⟩

theorem map {read : Reads α} {f : α → β} (h : Keeps m stop Q read) (hf : ∀ a, Q a → Q' (f a)) :
    Keeps m stop Q' (f <$> read) :=
  h.bind fun a ha => pure (hf a ha)

theorem ite {c : Prop} [Decidable c] {read read' : Reads α} (h : Keeps m stop Q read)
    (h' : Keeps m stop Q read') : Keeps m stop Q (if c then read else read') := by
  split <;> assumption

-- Something is read after a lexeme.
theorem tail {read : Reads α} (h : Keeps m stop Q read) (hs : Of m (l :: s)) :
    Yields (fun x => Q x.value ∧ Of m x.rest) (Blames m stop)
      ((read s).map (Upto.tail (t := l))) :=
  (h s hs.tail).map fun _ hx => hx

theorem ofAfter {read : (s : List Lexeme) → Result (After s α)}
    (h : ∀ {s}, Of m s → Yields (fun x => Q x.value ∧ Of m x.rest) (Blames m stop) (read s)) :
    Keeps m stop Q (ofAfter read) :=
  fun _ hs => (h hs).map fun _ hx => hx

end Reads.Keeps

open Reads

theorem yields_expect {p : Token → Bool} {what : String} (hs : Of m s) :
    Yields (fun x => (p x.value.token ∧ Of m [x.value]) ∧ Of m x.rest) (Blames m stop)
      (expect stop p what s) := by
  cases s
  case nil => exact yields_fail hs rfl
  case cons l ls =>
    simp only [expect]
    split
    case isTrue hp =>
      obtain ⟨hl, hls⟩ := List.forall_mem_cons.mp hs
      exact ⟨⟨hp, List.forall_mem_singleton.mpr hl⟩, hls⟩
    case isFalse => exact yields_fail hs rfl

theorem yields_expectKind {kind : TokenKind} {what : String} (hs : Of m s) :
    Yields (fun x => (x.value.token.kind = kind ∧ Of m [x.value]) ∧ Of m x.rest) (Blames m stop)
      (expectKind stop kind what s) :=
  (yields_expect hs).mono (fun _ ⟨⟨hp, hl⟩, hr⟩ => ⟨⟨of_decide_eq_true hp, hl⟩, hr⟩) fun _ he => he

theorem keeps_skip {p : Token → Bool} {what : String} :
    (skip stop p what).Keeps m stop fun _ => True :=
  fun _ hs => (yields_expect hs).map fun _ ⟨_, hr⟩ => ⟨trivial, hr⟩

theorem keeps_skipKind {kind : TokenKind} {what : String} :
    (skipKind stop kind what).Keeps m stop fun _ => True :=
  keeps_skip

theorem keeps_string {what : String} :
    (string stop what).Keeps m stop fun t => t.kind = .string ∧ m.token t :=
  fun _ hs => (yields_expectKind hs).map fun _ ⟨⟨hk, hl⟩, hr⟩ => ⟨⟨hk, hl.head⟩, hr⟩

theorem keeps_name {what : String} : (name stop what).Keeps m stop fun n => m.token n.identifier :=
  fun _ hs => (yields_expectKind hs).map fun _ ⟨⟨hk, hl⟩, hr⟩ => ⟨hl.name hk, hr⟩

end Parser

end BlockLang
