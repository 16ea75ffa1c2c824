import BlockLang.Token.Literal
import BlockLang.Tree.Parser.Decl
import BlockLang.Proofs.Token.Lexer
import BlockLang.Proofs.Tree.Parser.Stmt

/-!
Declarations are made of the tokens that they are read from. In the names of a source there are no
colons. Errors that blame a text have a place where one of its tokens starts, and what cannot be
parsed is such an error.
-/

namespace BlockLang

variable {m : Material}

namespace Lexemes

variable {ts : List Token} {last : Option Lexeme} {leading : Option Token}

-- A lexeme has its token and its comments from the tokens.
theorem of_attach (ht : ∀ t ∈ ts, m.token t) (hc : ∀ t ∈ ts, t.kind = .comment → m.comment t)
    (hl : ∀ l ∈ last, l.Of m) (hlead : ∀ c ∈ leading, m.comment c) :
    Of m (attach last leading ts).items ∧
      ∀ c ∈ (attach last leading ts).stop.leading, m.comment c := by
  fun_induction attach last leading ts
  case case1 l _ => exact ⟨List.forall_mem_nil _, (hl l rfl).leading⟩
  case case2 l _ =>
    have h : Of m [l] := List.forall_mem_singleton.mpr (hl l rfl)
    exact ⟨h, hlead⟩
  case case3 => exact ⟨List.forall_mem_nil _, hlead⟩
  case case4 t ts hk l _ hi =>
    have ⟨hc, hcs⟩ := List.forall_mem_cons.mp hc
    have hl : Lexeme.Of m { l with trailing := some t } :=
      { hl l rfl with trailing := fun _ he => Option.some.inj he ▸ hc hk }
    exact hi (List.forall_mem_cons.mp ht).2 hcs (fun _ he => Option.some.inj he ▸ hl) hlead
  case case5 t ts hk _ _ hi | case6 t ts hk hi =>
    have ⟨hc, hcs⟩ := List.forall_mem_cons.mp hc
    exact hi (List.forall_mem_cons.mp ht).2 hcs hl fun _ he => Option.some.inj he ▸ hc hk
  case case7 last leading t ts _ _ hi =>
    have ⟨ht, hts⟩ := List.forall_mem_cons.mp ht
    have hl' : Lexeme.Of m ⟨t, leading, none⟩ := ⟨ht, hlead, nofun⟩
    have ⟨hi, hs⟩ := hi hts (List.forall_mem_cons.mp hc).2
      (fun _ he => Option.some.inj he ▸ hl') nofun
    exact ⟨List.forall_mem_append.mpr ⟨fun l h => hl l (Option.mem_toList.mp h), hi⟩, hs⟩

-- If the tokens end with the end of the source, then there is nothing after it.
theorem stop_attach {t : Token} (h : ts.getLast? = some t) (he : t.kind = .eof) :
    (attach last leading ts).stop.token = t := by
  fun_induction attach last leading ts
  case case1 | case2 | case3 => contradiction
  case case4 u ts hk _ _ hi | case5 u ts hk _ _ hi | case6 u ts hk hi =>
    cases ts
    case nil =>
      obtain rfl : u = t := by simpa using h
      simp [he] at hk
    case cons v vs => exact hi (by simpa using h)
  case case7 last leading u ts _ _ hi =>
    cases ts
    case nil =>
      obtain rfl : u = t := by simpa using h
      change (attach (some ⟨u, leading, none⟩) none []).stop.token = u
      simp [attach, he]
    case cons v vs => exact hi (by simpa using h)

end Lexemes

namespace Parser

open Lexemes Reads

variable {stop : Token} {n : Name} {span : Span}

theorem keeps_body : (body stop).Keeps m stop (Stmt.MadeOfBody m .any) :=
  .ofAfter yields_block

theorem keeps_afterCommas {α : Type} {Q : α → Prop} {read : Reads α} (h : read.Keeps m stop Q) :
    Reads.Keeps m stop (fun as => ∀ a ∈ as, Q a) (afterCommas read) := by
  intro s hs
  fun_induction afterCommas read s
  case case1 | case3 => exact ⟨List.forall_mem_nil _, hs⟩
  case case2 hi =>
    refine (h _ hs.tail).bind fun ⟨a, r, hr⟩ ⟨ha, hs⟩ => (hi r hr hs).bind fun _ ⟨has, hs⟩ => ?_
    exact ⟨List.forall_mem_cons.mpr ⟨ha, has⟩, hs⟩

theorem keeps_names :
    (names stop).Keeps m stop fun ns => ns ≠ [] ∧ ∀ n ∈ ns, m.token n.identifier :=
  keeps_name.bind fun _ hn => (keeps_afterCommas keeps_name).bind fun _ hns =>
    .pure ⟨nofun, List.forall_mem_cons.mpr ⟨hn, hns⟩⟩

theorem keeps_namesDecl {what : String} :
    (namesDecl stop what).Keeps m stop fun ns => ns ≠ [] ∧ ∀ n ∈ ns, m.token n.identifier :=
  keeps_names.bind fun _ hn => keeps_skipKind.bind fun _ _ => .pure hn

theorem keeps_costumesDecl : (costumesDecl stop).Keeps m stop (·.MadeOf m .any) :=
  keeps_string.bind fun _ ht => (keeps_afterCommas keeps_string).bind fun _ hts =>
    keeps_skipKind.bind fun _ _ => .pure ⟨nofun, List.forall_mem_cons.mpr ⟨ht, hts⟩⟩

theorem keeps_dataListDecl : (dataListDecl stop).Keeps m stop (·.MadeOf m .any) :=
  keeps_name.bind fun _ hn => keeps_string.bind fun _ ht => keeps_skipKind.bind fun _ _ =>
    .pure ⟨hn, ht⟩

theorem keeps_imageListDecl : (imageListDecl stop).Keeps m stop (·.MadeOf m .any) := by
  refine keeps_name.bind fun n hn => keeps_string.bind fun t ht =>
    Keeps.upcoming.bind fun _ _ => ?_
  have hj : ∀ format : Option Name, (∀ f ∈ format, m.token f.identifier) →
      Keeps m stop (fun d : Decl => d.MadeOf m .any)
      (do skipKind stop .semicolon "';' after imagelist"; return Decl.imageList n t format) :=
    fun _ hf => keeps_skipKind.bind fun _ _ => .pure ⟨hn, ht, hf⟩
  refine .ite (.bind (keeps_name.map fun _ hf f he => ?_) hj) (.bind (.pure nofun) hj)
  exact Option.some.inj he ▸ hf

theorem keeps_parameters {bodyNext : Bool} :
    (parameters stop bodyNext).Keeps m stop fun ps => ∀ p ∈ ps, m.token p.identifier :=
  .ite (.pure nofun) fun _ hs => (keeps_names _ hs).mono (fun _ ⟨hn, hr⟩ => ⟨hn.2, hr⟩) fun _ => id

theorem keeps_functionDecl {warp : Bool} :
    (functionDecl stop warp).Keeps m stop (·.MadeOf m .any) :=
  keeps_name.bind fun _ hn => Keeps.upcoming.bind fun _ _ => keeps_parameters.bind fun _ hp =>
    keeps_body.bind fun _ hb => .pure ⟨hn, hp, hb⟩

theorem keeps_macroDecl : (macroDecl stop).Keeps m stop (·.MadeOf m .any) := by
  refine keeps_name.bind fun _ hn => Keeps.upcoming.bind fun _ _ =>
    keeps_parameters.bind fun _ hp => Keeps.upcoming.bind fun _ _ => .ite ?_ (.ite ?_ ?_)
  · exact keeps_skip.bind fun _ _ => keeps_anyExpression.bind fun _ he =>
      keeps_skipKind.bind fun _ _ => .pure ⟨hn, hp, he⟩
  · exact keeps_body.bind fun _ hb => .pure ⟨hn, hp, hb⟩
  · exact fun _ hs => yields_fail hs rfl

theorem keeps_script {event : Event} (hs : m.Starts span) (he : event.MadeOf m .any) :
    (script stop span event).Keeps m stop (·.MadeOf m .any) :=
  keeps_body.map fun _ hb => ⟨hs, he, hb⟩

theorem keeps_stringEvent {what : String} {event : Token → Event} (hs : m.Starts span)
    (he : ∀ t, t.kind = .string ∧ m.token t → (event t).MadeOf m .any) :
    (stringEvent stop span what event).Keeps m stop (·.MadeOf m .any) :=
  keeps_string.bind fun t ht => keeps_script hs (he t ht)

theorem keeps_thresholdEvent {event : Expr → Event} (hs : m.Starts span)
    (he : ∀ e, e.MadeOf m .any → (event e).MadeOf m .any) :
    (thresholdEvent stop span event).Keeps m stop (·.MadeOf m .any) :=
  keeps_anyExpression.bind fun e hn => keeps_script hs (he e hn)

theorem keeps_afterKeyword {t : Token} {read : Reads Decl} (h : afterKeyword stop t = some read)
    (ht : m.token t) : read.Keeps m stop (·.MadeOf m .any) := by
  have hs := Material.starts_span ht
  unfold afterKeyword at h
  split at h
  case h_17 => contradiction
  all_goals obtain rfl := Option.some.inj h
  case h_1 => exact keeps_costumesDecl
  case h_2 | h_3 => exact keeps_namesDecl.map fun _ hn => hn
  case h_4 => exact keeps_dataListDecl
  case h_5 => exact keeps_imageListDecl
  case h_6 => exact keeps_skip.bind fun _ _ => keeps_functionDecl
  case h_7 => exact keeps_functionDecl
  case h_8 => exact keeps_macroDecl
  case h_9 | h_10 | h_11 => exact keeps_script hs trivial
  case h_12 | h_13 | h_14 => exact keeps_stringEvent hs fun _ ht => ht
  case h_15 | h_16 => exact keeps_thresholdEvent hs fun _ he => he

theorem yields_declaration {s : List Lexeme} (hs : Of m s) :
    Yields (fun x => x.value.MadeOf m .any ∧ Of m x.rest) (Blames m stop) (declaration stop s) := by
  cases s
  case nil => exact yields_fail hs rfl
  case cons l ls =>
    simp only [declaration]
    split
    case h_1 read hr =>
      split at hr
      · exact (keeps_afterKeyword hr hs.head).tail hs
      · contradiction
    case h_2 => exact yields_fail hs rfl

theorem madeOf_docComment {comment : Option Token} (h : ∀ c ∈ comment, m.comment c) :
    ∀ d ∈ docComment comment, d.MadeOf m .any := by
  cases comment
  case none => exact nofun
  case some c => exact List.forall_mem_singleton.mpr (h c rfl)

theorem yields_declarations {stop : Lexeme} {s : List Lexeme} (hs : Of m s)
    (hc : ∀ c ∈ stop.leading, m.comment c) :
    Yields (fun ds => ∀ d ∈ ds, d.MadeOf m .any) (Blames m stop.token) (declarations stop s) := by
  fun_induction declarations stop s
  case case1 => exact madeOf_docComment hc
  case case2 => exact madeOf_docComment hs.first.leading
  case case3 hi =>
    have hl := madeOf_docComment hs.first.leading
    refine (yields_declaration hs).bind fun ⟨d, r, hr⟩ ⟨hd, hs⟩ => ?_
    refine (hi r hr hs).bind fun ds hds => ?_
    exact List.forall_mem_append.mpr ⟨hl, List.forall_mem_cons.mpr ⟨hd, hds⟩⟩

end Parser

namespace SpriteTree

variable {source : String} {ts : List Token} {tree : SpriteTree}

theorem yields_ofTokens (ht : ∀ t ∈ ts, m.token t)
    (hc : ∀ t ∈ ts, t.kind = .comment → m.comment t) :
    Yields (fun tree : SpriteTree => ∀ d ∈ tree, d.MadeOf m .any)
      (Parser.Blames m (Lexemes.ofTokens ts).stop.token) (ofTokens ts) := by
  have ⟨hi, hs⟩ : Lexemes.Of m (Lexemes.ofTokens ts).items ∧
      ∀ c ∈ (Lexemes.ofTokens ts).stop.leading, m.comment c :=
    Lexemes.of_attach ht hc (fun _ h => nomatch h) fun _ h => nomatch h
  exact Parser.yields_declarations hi hs

theorem readable_ofTokens {P : String → Prop} (hn : ∀ t ∈ ts, t.kind = .ident → P t.text)
    (h : ofTokens ts = .ok tree) : ∀ d ∈ tree, d.Readable P := fun d hd =>
  have hm := (yields_ofTokens (m := .named P) hn fun _ _ _ => trivial).value h
  (hm d hd).readable Material.names_named

-- The tree of a source is made of its tokens.
theorem madeOf_ofSource (h : ofSource source = .ok tree) :
    ∃ ts, Token.ofSource source = .ok ts ∧
      ∀ d ∈ tree, d.MadeOf ⟨(· ∈ ts), fun t => t.kind = .comment⟩ .any := by
  unfold ofSource at h
  split at h
  case h_1 ts ht =>
    exact ⟨ts, ht, (yields_ofTokens (fun _ => id) fun _ _ => id).value (mapError_eq_ok.mp h)⟩
  case h_2 => contradiction

-- The names in the tree of a source consist of letters, digits and underscores.
theorem isWordChar_ofSource (h : ofSource source = .ok tree) :
    ∀ d ∈ tree, ∀ n ∈ d.names, ∀ c ∈ n.toList, Scan.isWordChar c := by
  have ⟨ts, ht, hm⟩ := madeOf_ofSource h
  have hw : Material.Names ⟨(· ∈ ts), fun t => t.kind = .comment⟩
      fun n => ∀ c ∈ n.toList, Scan.isWordChar c :=
    fun _ hn => Token.isWordChar_of_scan ht hn rfl
  exact fun d hd => ((hm d hd).readable hw).names

-- So no name in the tree of a source has a colon in it.
theorem names_ofSource (h : ofSource source = .ok tree) :
    ∀ d ∈ tree, ∀ n ∈ d.names, isLocalName n = false :=
  fun d hd n hn => isLocalName_of_isWordChar (isWordChar_ofSource h d hd n hn)

end SpriteTree

section Blames

structure Material.Blames (m : Material) (d : Diagnostic) : Prop where
  place : ∃ s, d.site = .span s none ∧ m.Starts s
  fault : d.fault.isInternal = false

variable {t : Token} {n : Name} {s : Span} {fault : Fault} {help : Option String}
  {α : Type} {Q : α → Prop}

theorem yields_error (hs : m.Starts s) (hf : fault.isInternal = false) :
    Yields Q m.Blames (.error (.span s fault help)) :=
  ⟨⟨s, rfl, hs⟩, hf⟩

theorem yields_errorAt (ht : m.token t) (hf : fault.isInternal = false) :
    Yields Q m.Blames (.error (.span t.span fault help)) :=
  yields_error (Material.starts_span ht) hf

theorem yields_errorIn (hn : m.token n.identifier) (hf : fault.isInternal = false) :
    Yields Q m.Blames (.error (.span n.span fault help)) :=
  yields_errorAt hn hf

-- If a computation fails, then a text is to blame.
abbrev Material.Explains (m : Material) (x : Except Diagnostic α) : Prop :=
  Yields (fun _ => True) m.Blames x

theorem explains_literal (ht : m.token t) : m.Explains t.literal := by
  unfold Token.literal
  repeat' split
  all_goals first
    | exact trivial
    | exact yields_errorAt ht rfl

-- A comment always has a text.
theorem explains_comment (hk : t.kind = .comment) : m.Explains t.literal := by
  unfold Token.literal
  rw [hk]
  exact trivial

variable {text : String} {ts : List Token}

-- Some tokens, and comments wherever they stand.
def Material.ofTokens (ts : List Token) : Material where
  token t := t ∈ ts
  comment t := t.kind = .comment

-- The end of a text is one of its tokens.
theorem Lexemes.stop_mem (h : Token.ofSource text = .ok ts) : (ofTokens ts).stop.token ∈ ts := by
  obtain ⟨_, t, ht, hk⟩ := Token.yields_ofSource.value h
  exact stop_attach ht hk ▸ List.mem_of_getLast? ht

theorem SpriteTree.yields_ofSource (h : Token.ofSource text = .ok ts) :
    Yields (fun tree : SpriteTree => ∀ d ∈ tree, d.MadeOf (.ofTokens ts) .any)
      (Material.ofTokens ts).Blames (ofSource text) := by
  unfold ofSource
  rw [h]
  refine (yields_ofTokens (fun _ => id) fun _ _ => id).mapError fun e he => ?_
  cases he.place
  case inl hp => exact ⟨⟨e.span, rfl, hp⟩, he.fault⟩
  case inr hp =>
    have hs : (Material.ofTokens ts).Starts e.span :=
      hp ▸ Material.starts_span (Lexemes.stop_mem h)
    exact ⟨⟨e.span, rfl, hs⟩, he.fault⟩

end Blames

end BlockLang
