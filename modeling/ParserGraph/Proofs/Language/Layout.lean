import ParserGraph.Grammar.Language
import ParserGraph.Proofs.Grammar.Realization

/-!
# Layout — which nodes the parser of the grammar language is made of

Each step that builds a part of the language ensures the nodes of that part
in every graph the build may go on to (`Build.Ensures`): names are given at
once, and from then on nodes only change by a placeholder's being given its
body. Put together, these make up the layout of the whole (`Layout`), which
is all that is used of the graph.
-/

namespace ParserGraph

namespace Build

variable {α β : Type} {Q : α → Graph → Prop} {Q' : β → Graph → Prop}

/-- Where a step succeeds, its result has a property in every graph that the build may go on
to. -/
def Ensures (step : Build α) (Q : α → Graph → Prop) : Prop :=
  ∀ g a g', g.Sound → step g = .ok a g' →
    g'.Sound ∧ g.Refines g' ∧ ∀ g'', g'.Refines g'' → Q a g''

namespace Ensures

theorem bind {step : Build α} {next : α → Build β} (hstep : step.Ensures Q)
    (hnext : ∀ a, (next a).Ensures fun b g => Q a g → Q' b g) : (step >>= next).Ensures Q' := by
  intro g b g' hsound h
  change EStateM.bind step next g = .ok b g' at h
  unfold EStateM.bind at h
  split at h
  · next a g₁ hfirst =>
    obtain ⟨hsound₁, hrefines₁, hQ⟩ := hstep g a g₁ hsound hfirst
    obtain ⟨hsound', hrefines', hQ'⟩ := hnext a g₁ b g' hsound₁ h
    exact ⟨hsound', hrefines₁.trans hrefines',
      fun g'' h'' => hQ' g'' h'' (hQ g'' (hrefines'.trans h''))⟩
  · exact nomatch h

theorem weaken {Q' : α → Graph → Prop} {step : Build α} (h : step.Ensures Q)
    (hQ : ∀ a g, Q a g → Q' a g) : step.Ensures Q' := by
  intro g a g' hsound heq
  obtain ⟨hsound', hrefines, hall⟩ := h g a g' hsound heq
  exact ⟨hsound', hrefines, fun g'' h'' => hQ a g'' (hall g'' h'')⟩

end Ensures

/-- What is added stays. -/
theorem insert_ensures {kind : Kind} (hkind : kind ≠ .rule none) :
    (insert kind).Ensures fun id g => g.node? id = some ⟨none, kind⟩ := by
  intro g id g' hsound h
  obtain ⟨hadd, -⟩ := insert_eq_ok hsound h
  exact ⟨hadd.sound, hadd.extends.refines, fun g'' h'' => h''.kept hadd.node?_self hkind⟩

/-- What is named at once stays under its name. -/
theorem insert_named_ensures {kind : Kind} {name : String} (hkind : kind ≠ .rule none) :
    (insert kind >>= fun id => named id name).Ensures fun id g =>
      g.node? id = some ⟨some name, kind⟩ := by
  intro g id g' hsound h
  have hadd := insert_named_eq_ok hsound h
  exact ⟨hadd.sound, hadd.extends.refines, fun g'' h'' => h''.kept hadd.node?_self hkind⟩

/-- A placeholder keeps its name. -/
theorem rule_ensures (name : String) :
    (rule name).Ensures fun id g => ∃ kind, g.node? id = some ⟨some name, kind⟩ := by
  intro g id g' hsound h
  have hadd := rule_eq_ok hsound h
  exact ⟨hadd.sound, hadd.extends.refines, fun g'' h'' => h''.named hadd.node?_self⟩

/-- A placeholder keeps the body it is given. -/
theorem define_ensures (rule body : ParserId) :
    (define rule body).Ensures fun _ g =>
      ∃ name, g.node? rule = some ⟨name, .rule (some body)⟩ := by
  intro g u g' hsound h
  unfold define at h
  split at h
  · next g₁ hdefine =>
    cases h
    obtain ⟨-, name, hrule, rfl⟩ := Graph.define_eq_ok hdefine
    have hnode : (g.replace rule ⟨name, .rule (some body)⟩).node? rule =
        some ⟨name, .rule (some body)⟩ := by
      rw [Graph.node?_replace hrule, if_pos rfl]
    exact ⟨Graph.sound_replace hsound hrule _, Graph.refines_replace hrule,
      fun g'' h'' => ⟨name, h''.kept hnode (by simp)⟩⟩
  · exact nomatch h

end Build

namespace Grammar.Language

section

variable (g : Graph) (spaces : ParserId)

/-- Any number of blanks, without a tree. -/
def IsBlankRun : Prop :=
  ∃ run blank, g.node? spaces = some ⟨none, .transform run Tree.skip⟩ ∧
    g.node? run = some ⟨none, .repetition blank 0 none⟩ ∧
    g.node? blank = some ⟨none, .terminal (.oneOf blanks)⟩

/-- A part and the blanks after it, with the tree of the part. -/
def IsLexeme (name : Option String) (id part : ParserId) : Prop :=
  ∃ both, g.node? id = some ⟨name, .transform both Tree.first⟩ ∧
    g.node? both = some ⟨none, .sequence [part, spaces]⟩

/-- A character that is a token. -/
def IsSymbol (id : ParserId) (x : Char) : Prop :=
  ∃ part, IsLexeme g spaces none id part ∧ g.node? part = some ⟨none, .terminal (.char x)⟩

/-- A token whose tree is its text, under a name. -/
def IsNamed (name : String) (id part : ParserId) : Prop :=
  ∃ text, IsLexeme g spaces (some name) id text ∧ g.node? text = some ⟨none, .token part⟩

/-- Parts one after another, their trees side by side. -/
def IsFlat (name : Option String) (id : ParserId) (parts : List ParserId) : Prop :=
  ∃ all, g.node? id = some ⟨name, .transform all Tree.flatten⟩ ∧
    g.node? all = some ⟨none, .sequence parts⟩

/-- Text between two marks, in which a backslash takes the next character along. -/
def IsQuoted (mark : Char) (name : String) (id : ParserId) : Prop :=
  ∃ whole opening body closing piece escape backslash any plain,
    IsNamed g spaces name id whole ∧
    g.node? whole = some ⟨none, .sequence [opening, body, closing]⟩ ∧
    g.node? opening = some ⟨none, .terminal (.char mark)⟩ ∧
    g.node? body = some ⟨none, .repetition piece 0 none⟩ ∧
    g.node? closing = some ⟨none, .terminal (.char mark)⟩ ∧
    g.node? piece = some ⟨none, .alternation [escape, plain]⟩ ∧
    g.node? escape = some ⟨none, .sequence [backslash, any]⟩ ∧
    g.node? backslash = some ⟨none, .terminal (.char '\\')⟩ ∧
    g.node? any = some ⟨none, .terminal .any⟩ ∧
    g.node? plain = some ⟨none, .terminal (.noneOf (String.ofList [mark, '\\']))⟩

/-- A name. -/
def IsName (ident : ParserId) : Prop :=
  ∃ whole first others other, IsNamed g spaces "ident" ident whole ∧
    g.node? whole = some ⟨none, .sequence [first, others]⟩ ∧
    g.node? first = some ⟨none, .terminal (.satisfy "identifier" isNameStart)⟩ ∧
    g.node? others = some ⟨none, .repetition other 0 none⟩ ∧
    g.node? other = some ⟨none, .terminal (.satisfy "identifier character" isNamePart)⟩

/-- A number. -/
def IsNumber (digits : ParserId) : Prop :=
  ∃ whole digit, IsNamed g spaces "digits" digits whole ∧
    g.node? whole = some ⟨none, .repetition digit 1 none⟩ ∧
    g.node? digit = some ⟨none, .terminal (.satisfy "digit" Char.isDigit)⟩

/-- A name, in angles or bare. -/
def IsReference (ident ref : ParserId) : Prop :=
  ∃ angled opening closing, g.node? ref = some ⟨some "ref", .alternation [angled, ident]⟩ ∧
    IsFlat g none angled [opening, ident, closing] ∧
    IsSymbol g spaces opening '<' ∧ IsSymbol g spaces closing '>'

/-- Alternatives in parentheses. -/
def IsGroup (alt group : ParserId) : Prop :=
  ∃ opening closing, IsFlat g (some "group") group [opening, alt, closing] ∧
    IsSymbol g spaces opening '(' ∧ IsSymbol g spaces closing ')'

/-- Counts in braces. -/
def IsBounds (digits bounds : ParserId) : Prop :=
  ∃ opening tail closing more comma upper,
    IsFlat g none bounds [opening, digits, tail, closing] ∧ IsSymbol g spaces opening '\x7b' ∧
    g.node? tail = some ⟨none, .optional more⟩ ∧
    g.node? more = some ⟨none, .sequence [comma, upper]⟩ ∧ IsSymbol g spaces comma ',' ∧
    g.node? upper = some ⟨none, .optional digits⟩ ∧ IsSymbol g spaces closing '\x7d'

/-- What may follow a factor: an operator, or counts in braces. -/
def IsSuffix (digits suffix : ParserId) : Prop :=
  ∃ given operator one bounds, g.node? suffix = some ⟨none, .optional given⟩ ∧
    g.node? given = some ⟨some "suffix", .alternation [operator, bounds]⟩ ∧
    IsLexeme g spaces none operator one ∧
    g.node? one = some ⟨none, .terminal (.oneOf "*+?!")⟩ ∧ IsBounds g spaces digits bounds

/-- Factors side by side. -/
def IsFactors (factor seq : ParserId) : Prop :=
  ∃ factors, g.node? seq = some ⟨some "seq", .transform factors Tree.flatten⟩ ∧
    g.node? factors = some ⟨none, .repetition factor 0 none⟩

/-- Sequences separated by bars. -/
def IsAlternatives (seq body : ParserId) : Prop :=
  ∃ others next bar, IsFlat g none body [seq, others] ∧
    g.node? others = some ⟨none, .repetition next 0 none⟩ ∧
    g.node? next = some ⟨none, .sequence [bar, seq]⟩ ∧ IsSymbol g spaces bar '|'

/-- A statement, which ends with a semicolon or, in vain, with one more factor. -/
def IsStatement (ident string alt factor stmt : ParserId) : Prop :=
  ∃ optional label colon terminator semicolon,
    IsFlat g (some "stmt") stmt [ident, optional, colon, alt, terminator] ∧
    g.node? optional = some ⟨none, .optional label⟩ ∧
    g.node? label = some ⟨some "label", .transform string id⟩ ∧ IsSymbol g spaces colon ':' ∧
    g.node? terminator = some ⟨none, .alternation [semicolon, factor]⟩ ∧
    IsSymbol g spaces semicolon ';'

/-- Statements, which end with the text or, in vain, with one more statement. -/
def IsGrammar (stmt root : ParserId) : Prop :=
  ∃ start statements ending stop,
    IsFlat g (some "grammar") root [start, spaces, statements, ending] ∧
    g.node? start = some ⟨none, .terminal .startOfInput⟩ ∧
    g.node? statements = some ⟨none, .repetition stmt 0 none⟩ ∧
    g.node? ending = some ⟨none, .alternation [stop, stmt]⟩ ∧
    g.node? stop = some ⟨none, .terminal .endOfInput⟩

end

/-- The parsers of the parts that the language has names for. -/
structure Parsers where
  spaces : ParserId
  ident : ParserId
  digits : ParserId
  string : ParserId
  char : ParserId
  regex : ParserId
  ref : ParserId
  alt : ParserId
  group : ParserId
  base : ParserId
  suffix : ParserId
  factor : ParserId
  seq : ParserId
  body : ParserId
  stmt : ParserId
  grammar : ParserId

/-- **The layout of a graph that parses the language.** -/
structure Layout (g : Graph) (p : Parsers) : Prop where
  spaces : IsBlankRun g p.spaces
  ident : IsName g p.spaces p.ident
  digits : IsNumber g p.spaces p.digits
  string : IsQuoted g p.spaces '"' "string" p.string
  char : IsQuoted g p.spaces '\'' "char" p.char
  regex : IsQuoted g p.spaces '/' "regex" p.regex
  ref : IsReference g p.spaces p.ident p.ref
  group : IsGroup g p.spaces p.alt p.group
  base : g.node? p.base = some ⟨none, .alternation [p.string, p.char, p.regex, p.ref, p.group]⟩
  suffix : IsSuffix g p.spaces p.digits p.suffix
  factor : IsFlat g (some "factor") p.factor [p.base, p.suffix]
  seq : IsFactors g p.factor p.seq
  body : IsAlternatives g p.spaces p.seq p.body
  alt : g.node? p.alt = some ⟨some "alt", .rule (some p.body)⟩
  stmt : IsStatement g p.spaces p.ident p.string p.alt p.factor p.stmt
  grammar : IsGrammar g p.spaces p.stmt p.grammar

/-! ## Building it -/

section

open Build

variable {spaces : ParserId}

theorem blankRun_ensures : blankRun.Ensures fun id g => IsBlankRun g id :=
  (insert_ensures (by simp)).bind fun blank => (insert_ensures (by simp)).bind fun run =>
    (insert_ensures (by simp)).weaken fun _ _ hid hrun hblank => ⟨run, blank, hid, hrun, hblank⟩

theorem lexeme_ensures (part : ParserId) :
    (lexeme spaces part).Ensures fun id g => IsLexeme g spaces none id part :=
  (insert_ensures (by simp)).bind fun both =>
    (insert_ensures (by simp)).weaken fun _ _ hid hboth => ⟨both, hid, hboth⟩

theorem symbol_ensures (x : Char) : (symbol spaces x).Ensures fun id g => IsSymbol g spaces id x :=
  (insert_ensures (by simp)).bind fun part =>
    (lexeme_ensures part).weaken fun _ _ hid hpart => ⟨part, hid, hpart⟩

theorem named_ensures (part : ParserId) (name : String) :
    (named spaces part name).Ensures fun id g => IsNamed g spaces name id part := by
  refine (insert_ensures (by simp)).bind fun text => ?_
  unfold lexeme
  rw [bind_assoc]
  exact (insert_ensures (by simp)).bind fun both =>
    (insert_named_ensures (by simp)).weaken fun _ _ hid hboth htext =>
      ⟨text, ⟨both, hid, hboth⟩, htext⟩

theorem flat_ensures (parts : List ParserId) :
    (flat parts).Ensures fun id g => IsFlat g none id parts :=
  (insert_ensures (by simp)).bind fun all =>
    (insert_ensures (by simp)).weaken fun _ _ hid hall => ⟨all, hid, hall⟩

theorem flat_named_ensures (parts : List ParserId) (name : String) :
    (flat parts >>= fun id => Build.named id name).Ensures fun id g =>
      IsFlat g (some name) id parts := by
  unfold flat
  rw [bind_assoc]
  exact (insert_ensures (by simp)).bind fun all =>
    (insert_named_ensures (by simp)).weaken fun _ _ hid hall => ⟨all, hid, hall⟩

theorem quoted_ensures (mark : Char) (name : String) :
    (quoted spaces mark name).Ensures fun id g => IsQuoted g spaces mark name id :=
  (insert_ensures (by simp)).bind fun opening => (insert_ensures (by simp)).bind fun backslash =>
    (insert_ensures (by simp)).bind fun any => (insert_ensures (by simp)).bind fun escape =>
    (insert_ensures (by simp)).bind fun plain => (insert_ensures (by simp)).bind fun piece =>
    (insert_ensures (by simp)).bind fun body => (insert_ensures (by simp)).bind fun closing =>
    (insert_ensures (by simp)).bind fun whole =>
    (named_ensures whole name).weaken fun _ _ hid hwhole hclosing hbody hpiece hplain hescape hany
        hbackslash hopening =>
      ⟨whole, opening, body, closing, piece, escape, backslash, any, plain, hid, hwhole, hopening,
        hbody, hclosing, hpiece, hescape, hbackslash, hany, hplain⟩

theorem identifier_ensures : (identifier spaces).Ensures fun id g => IsName g spaces id :=
  (insert_ensures (by simp)).bind fun first => (insert_ensures (by simp)).bind fun other =>
    (insert_ensures (by simp)).bind fun others => (insert_ensures (by simp)).bind fun whole =>
    (named_ensures whole "ident").weaken fun _ _ hid hwhole hothers hother hfirst =>
      ⟨whole, first, others, other, hid, hwhole, hfirst, hothers, hother⟩

theorem digit_ensures :
    Build.digit.Ensures fun id g =>
      g.node? id = some ⟨none, .terminal (.satisfy "digit" Char.isDigit)⟩ := by
  rw [Build.digit, satisfy]
  exact insert_ensures (by simp)

theorem digits_ensures : (digits spaces).Ensures fun id g => IsNumber g spaces id :=
  digit_ensures.bind fun digit => (insert_ensures (by simp)).bind fun whole =>
    (named_ensures whole "digits").weaken fun _ _ hid hwhole hdigit =>
      ⟨whole, digit, hid, hwhole, hdigit⟩

theorem reference_ensures (ident : ParserId) :
    (reference spaces ident).Ensures fun id g => IsReference g spaces ident id :=
  (symbol_ensures '<').bind fun opening => (symbol_ensures '>').bind fun closing =>
    (flat_ensures _).bind fun angled =>
    (insert_named_ensures (by simp)).weaken fun _ _ hid hangled hclosing hopening =>
      ⟨angled, opening, closing, hid, hangled, hopening, hclosing⟩

theorem group_ensures (alt : ParserId) :
    (group spaces alt).Ensures fun id g => IsGroup g spaces alt id :=
  (symbol_ensures '(').bind fun opening => (symbol_ensures ')').bind fun closing =>
    (flat_named_ensures _ "group").weaken fun _ _ hid hclosing hopening =>
      ⟨opening, closing, hid, hopening, hclosing⟩

theorem suffix_ensures (digits : ParserId) :
    (suffix spaces digits).Ensures fun id g => IsSuffix g spaces digits id := by
  refine (insert_ensures (by simp)).bind fun one => (lexeme_ensures _).bind fun operator =>
    (symbol_ensures '\x7b').bind fun opening => (symbol_ensures ',').bind fun comma =>
    (symbol_ensures '\x7d').bind fun closing => (insert_ensures (by simp)).bind fun upper =>
    (insert_ensures (by simp)).bind fun more => (insert_ensures (by simp)).bind fun tail =>
    (flat_ensures _).bind fun bounds => ?_
  rw [← bind_assoc]
  exact (insert_named_ensures (by simp)).bind fun either =>
    (insert_ensures (by simp)).weaken fun _ _ hid heither hbounds htail hmore hupper hclosing hcomma
        hopening hoperator hone =>
      ⟨either, operator, one, bounds, hid, heither, hoperator, hone, opening, tail, closing, more,
        comma, upper, hbounds, hopening, htail, hmore, hcomma, hupper, hclosing⟩

theorem alternatives_ensures (factor : ParserId) :
    (alternatives spaces factor).Ensures fun id g =>
      ∃ seq, IsFactors g factor seq ∧ IsAlternatives g spaces seq id := by
  refine (insert_ensures (by simp)).bind fun factors => ?_
  rw [← bind_assoc]
  exact (insert_named_ensures (by simp)).bind fun seq => (symbol_ensures '|').bind fun bar =>
    (insert_ensures (by simp)).bind fun next => (insert_ensures (by simp)).bind fun others =>
    (flat_ensures _).weaken fun _ _ hid hothers hnext hbar hseq hfactors =>
      ⟨seq, ⟨factors, hseq, hfactors⟩, others, next, bar, hid, hothers, hnext, hbar⟩

theorem statement_ensures (ident string alt factor : ParserId) :
    (statement spaces ident string alt factor).Ensures fun id g =>
      IsStatement g spaces ident string alt factor id := by
  refine (symbol_ensures ';').bind fun semicolon =>
    (insert_ensures (by simp)).bind fun terminator => ?_
  rw [← bind_assoc]
  exact (insert_named_ensures (by simp)).bind fun label =>
    (insert_ensures (by simp)).bind fun optional => (symbol_ensures ':').bind fun colon =>
    (flat_named_ensures _ "stmt").weaken
      fun _ _ hid hcolon hoptional hlabel hterminator hsemicolon =>
        ⟨optional, label, colon, terminator, semicolon, hid, hoptional, hlabel, hcolon, hterminator,
          hsemicolon⟩

/-- **Building the language ensures its layout.** -/
theorem grammar_ensures :
    grammar.Ensures fun root g => ∃ p : Parsers, Layout g p ∧ p.grammar = root := by
  refine blankRun_ensures.bind fun spaces => identifier_ensures.bind fun ident =>
    digits_ensures.bind fun digits => (quoted_ensures '"' "string").bind fun string =>
    (quoted_ensures '\'' "char").bind fun char => (quoted_ensures '/' "regex").bind fun regex =>
    (reference_ensures ident).bind fun ref => (rule_ensures "alt").bind fun alt =>
    (group_ensures alt).bind fun group => (insert_ensures (by simp)).bind fun base =>
    (suffix_ensures digits).bind fun suffix => ?_
  rw [← bind_assoc]
  refine (flat_named_ensures _ "factor").bind fun factor =>
    (alternatives_ensures factor).bind fun body => (define_ensures alt body).bind fun _ =>
    (statement_ensures ident string alt factor).bind fun stmt =>
    (insert_ensures (by simp)).bind fun start => (insert_ensures (by simp)).bind fun stop =>
    (insert_ensures (by simp)).bind fun statements => (insert_ensures (by simp)).bind fun ending =>
    (flat_named_ensures _ "grammar").weaken fun root g hroot hending hstatements hstop hstart hstmt
      hdefined hbody hfactor hsuffix hbase hgroup hrule href hregex hchar hstring hdigits hident
      hspaces => ?_
  obtain ⟨seq, hseq, hbody⟩ := hbody
  obtain ⟨kind, hrule⟩ := hrule
  obtain ⟨name, hdefined⟩ := hdefined
  cases hrule.symm.trans hdefined
  exact ⟨⟨spaces, ident, digits, string, char, regex, ref, alt, group, base, suffix, factor, seq,
      body, stmt, root⟩,
    ⟨hspaces, hident, hdigits, hstring, hchar, hregex, href, hgroup, hbase, hsuffix, hfactor, hseq,
      hbody, hrule, hstmt, start, statements, ending, stop, hroot, hstart, hstatements, hending,
      hstop⟩, rfl⟩

end

/-- Nothing stands against building the language. -/
theorem grammar_isOk :
    (match grammar.run Graph.empty with
      | .ok _ _ => true
      | .error _ _ => false) = true := by
  decide +kernel

/-- **The graph of the language has its layout.** -/
theorem graph_layout : ∃ p : Parsers, Layout graph.2 p ∧ p.grammar = graph.1 := by
  have hok := grammar_isOk
  unfold graph
  split
  · next root g hrun =>
    obtain ⟨-, -, hlayout⟩ := grammar_ensures _ _ _ Graph.sound_empty hrun
    exact hlayout g (Graph.Extends.refl g).refines
  · next m g hrun =>
    rw [hrun] at hok
    exact absurd hok Bool.false_ne_true

end Grammar.Language

end ParserGraph
