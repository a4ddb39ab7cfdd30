import ParserGraph.CommandLine.Basic
import ParserGraph.Proofs.Grammar.Laws
import ParserGraph.Proofs.Grammar.Normal
import ParserGraph.Proofs.Grammar.Refusal
import ParserGraph.Proofs.Tree.Showing

/-!
# Outcomes — what the command comes to, whatever it is given

There are two ways for the command to end. It may be unusable: a text is no
UTF-8, the grammar does not compile, or the rule is not in it (`Unusable`).
Otherwise the rule runs over the input, and the run has a result
(`Runs`). There is no third way, because no grammar text is ever compiled
against the contract of the library, and what is compiled from one has no
parser missing (`unusable_or_runs`). Each way fixes the exit, so the exit code
tells which of them was taken, and everything that is written goes to one
stream. What is written of a result tells it, since compiled trees have plain
tags (`Runs.plain`).
-/

namespace ParserGraph.CommandLine

open Grammar

/-! ## Texts and inputs -/

/-- The text that bytes encode, if there are any. -/
def readAs (bytes : Except ReadError ByteArray) : Except ReadError String := bytes.bind decode

theorem decode_eq_ok_iff {bytes : ByteArray} {text : String} :
    decode bytes = .ok text ↔ bytes = text.toUTF8 := by
  unfold decode String.fromUTF8?
  constructor
  · intro h
    split at h
    · next found hfound =>
      cases h
      split at hfound
      · cases hfound
        rfl
      · cases hfound
    · cases h
  · rintro rfl
    have hvalid : text.toUTF8.IsValidUTF8 := text.isValidUTF8
    rw [dif_pos hvalid]
    rfl

/-- A text is read from the bytes that encode it and no others. -/
theorem readAs_eq_ok_iff {bytes : Except ReadError ByteArray} {text : String} :
    readAs bytes = .ok text ↔ bytes = .ok text.toUTF8 := by
  cases bytes with
  | error e => exact iff_of_false (fun h => nomatch h) fun h => nomatch h
  | ok bytes =>
    rw [Except.ok.injEq]
    exact decode_eq_ok_iff

/-- The bytes of the input: those of the file that is named, or else those on standard input. -/
def inputBytes (args : Arguments) (files : String → Except ReadError ByteArray)
    (standardInput : Except ReadError ByteArray) : Except ReadError ByteArray :=
  match args.input with
  | some name => files name
  | none => standardInput

/-- What the command comes to, given the bytes that files and standard input hold. -/
def performBytes (dialect : Pattern.Dialect) (args : Arguments)
    (files : String → Except ReadError ByteArray) (standardInput : Except ReadError ByteArray) :
    Exit :=
  perform dialect args (fun name => readAs (files name)) (readAs standardInput)

/-! ## The two ways to end -/

variable {dialect : Pattern.Dialect} {args : Arguments}
  {files files' : String → Except ReadError ByteArray}
  {standardInput standardInput' : Except ReadError ByteArray} {text input : String}
  {result : Except ParseError Tree}

/-- What stands in the way of a run: a text that cannot be read as UTF-8, a grammar that does not
compile, or a rule that is not in it. -/
inductive Unusable (dialect : Pattern.Dialect) (args : Arguments)
    (files : String → Except ReadError ByteArray) (standardInput : Except ReadError ByteArray) :
    Prop
  /-- The grammar cannot be read. -/
  | grammar : (∀ text : String, files args.grammar ≠ .ok text.toUTF8) →
      Unusable dialect args files standardInput
  /-- The input cannot be read. -/
  | input : (∀ text : String, inputBytes args files standardInput ≠ .ok text.toUTF8) →
      Unusable dialect args files standardInput
  /-- The grammar does not compile. -/
  | rejected {text : String} {e : GrammarError} {g : Graph} :
      files args.grammar = .ok text.toUTF8 →
      compile dialect text [] args.sensitive Graph.empty = .ok (.error e) g →
      Unusable dialect args files standardInput
  /-- The grammar compiles, but to a table without the rule. -/
  | noRule {text : String} {c : Compilation} {g : Graph} :
      files args.grammar = .ok text.toUTF8 →
      compile dialect text [] args.sensitive Graph.empty = .ok (.ok c) g →
      c.table.get? args.rule = none → Unusable dialect args files standardInput

/-- The rule of the grammar runs over the input, within the limit that is asked for or else the
usual one, and comes to a result. -/
inductive Runs (dialect : Pattern.Dialect) (args : Arguments)
    (files : String → Except ReadError ByteArray) (standardInput : Except ReadError ByteArray)
    (result : Except ParseError Tree) : Prop
  /-- Nothing stands in the way. -/
  | intro {text input : String} {c : Compilation} {g : Graph} {rule : ParserId} :
      files args.grammar = .ok text.toUTF8 →
      inputBytes args files standardInput = .ok input.toUTF8 →
      compile dialect text [] args.sensitive Graph.empty = .ok (.ok c) g →
      c.table.get? args.rule = some rule →
      (g.setMaxDepth (args.maxDepth.getD 256)).run rule input = .ok result →
      Runs dialect args files standardInput result

/-- The exit that tells a result. -/
def Exit.telling (json : Bool) : Except ParseError Tree → Exit
  | .ok t => .matched json t
  | .error e => .failed json e

/-! ## Compiling for a run -/

/-- A grammar is compiled or rejected. -/
theorem compile_empty_succeeds (dialect : Pattern.Dialect) (text : String) (sensitive : Bool) :
    ∃ r g, compile dialect text [] sensitive Graph.empty = .ok r g := by
  obtain ⟨read, hread⟩ := definitions_succeeds dialect text
  cases read with
  | error e => exact ⟨_, _, compile_of_rejected hread⟩
  | ok ds =>
    obtain ⟨r, g, hassemble, -⟩ :=
      assemble_total [] sensitive Graph.sound_empty (definitions_ordered hread)
    exact ⟨r, g, (compile_of_definitions hread).trans hassemble⟩

/-- Compiling leaves the usual limit in place, whatever it is that matches the input. -/
theorem maxDepth_of_compile {c : Compilation} {g : Graph} {sensitive : Bool}
    (h : compile dialect text [] sensitive Graph.empty = .ok (.ok c) g) : g.maxDepth = 256 := by
  obtain ⟨ds, d, -, rfl, hover, -⟩ := compile_nil_eq_ok Graph.sound_empty h
  exact hover.maxDepth_eq

/-- **The command is unusable or runs.** -/
theorem unusable_or_runs (dialect : Pattern.Dialect) (args : Arguments)
    (files : String → Except ReadError ByteArray) (standardInput : Except ReadError ByteArray) :
    Unusable dialect args files standardInput ∨
      ∃ result, Runs dialect args files standardInput result := by
  by_cases hgrammar : ∀ text : String, files args.grammar ≠ .ok text.toUTF8
  · exact .inl (.grammar hgrammar)
  by_cases hinput : ∀ text : String, inputBytes args files standardInput ≠ .ok text.toUTF8
  · exact .inl (.input hinput)
  obtain ⟨text, htext⟩ := not_forall_not.1 hgrammar
  obtain ⟨input, hinput⟩ := not_forall_not.1 hinput
  obtain ⟨r, g, hcompile⟩ := compile_empty_succeeds dialect text args.sensitive
  cases r with
  | error e => exact .inl (.rejected htext hcompile)
  | ok c =>
    cases hrule : c.table.get? args.rule with
    | none => exact .inl (.noRule htext hcompile hrule)
    | some rule =>
      -- no parser that the rule leads to is missing, so the run cannot go wrong
      obtain ⟨roots, -, hrules⟩ := compile_valid Graph.sound_empty hcompile
      have hclosed : g.Closed rule := (hrules args.rule rule hrule).2
      obtain ⟨result, hrun⟩ := (hclosed.setMaxDepth (args.maxDepth.getD 256)).run_eq_ok input
      exact .inr ⟨result, .intro htext hinput hcompile hrule hrun⟩

/-! ## What a run comes to -/

/-- The names that a text defines are plain tags. -/
theorem plainTag_of_definitions {ds : List Definition}
    (h : definitions dialect text = .ok (.ok ds)) : ∀ d ∈ ds, PlainTag d.name := by
  intro d hd c hc
  obtain ⟨n, hn⟩ := Language.exists_name_of_definitions h d hd
  rw [hn, String.toList_ofList] at hc
  have hpart : Grammar.Language.isNamePart c = true := by
    rcases List.mem_cons.1 hc with rfl | hothers
    · exact Written.isNamePart_of_isNameStart n.start
    · exact n.part c hothers
  refine ⟨?_, ?_, ?_⟩ <;> rintro rfl <;> exact absurd hpart (by decide)

/-- The tree of a run has plain tags. -/
theorem Runs.plain {t : Tree} (h : Runs dialect args files standardInput (.ok t)) : t.Plain := by
  obtain ⟨-, -, hcompile, hrule, hrun⟩ := h
  obtain ⟨ds, d, hdefs, rfl, -, hcomplete⟩ := compile_nil_eq_ok Graph.sound_empty hcompile
  have hnames : ∀ d ∈ ds, d.name ∈ ds.map Definition.name ∧ d.name ≠ "" ∧ '|' ∉ d.name.toList :=
    fun d hd => ⟨List.mem_map_of_mem hd, name_of_definitions hdefs d hd⟩
  obtain ⟨hkept, -⟩ := kept_of_run (hcomplete.rules.setMaxDepth _) hnames hrule hrun
  exact hkept.plain (List.forall_mem_map.2 (plainTag_of_definitions hdefs))

/-! ## What either comes to -/

/-- What the input is called. -/
def inputName (args : Arguments) : String := args.input.getD "standard input"

/-- The grammar is read first, then the input, and only then anything else is done. -/
theorem performBytes_eq (dialect : Pattern.Dialect) (args : Arguments)
    (files : String → Except ReadError ByteArray) (standardInput : Except ReadError ByteArray) :
    performBytes dialect args files standardInput =
      match readAs (files args.grammar) with
      | .error e => .unusable ("cannot read " ++ args.grammar ++ ": " ++ e.message)
      | .ok text =>
        match readAs (inputBytes args files standardInput) with
        | .error e => .unusable ("cannot read " ++ inputName args ++ ": " ++ e.message)
        | .ok input => matchInput dialect args text input := by
  obtain ⟨grammar, rule, input, json, sensitive, maxDepth⟩ := args
  cases input with
  | none => rfl
  | some name => rfl

/-- Texts that can be read are matched with each other. -/
theorem performBytes_eq_matchInput (htext : files args.grammar = .ok text.toUTF8)
    (hinput : inputBytes args files standardInput = .ok input.toUTF8) :
    performBytes dialect args files standardInput = matchInput dialect args text input := by
  rw [performBytes_eq, readAs_eq_ok_iff.2 htext, readAs_eq_ok_iff.2 hinput]

/-- If one of them cannot be, the command says so. -/
theorem performBytes_of_unreadable
    (h : (∀ text : String, files args.grammar ≠ .ok text.toUTF8) ∨
      ∀ text : String, inputBytes args files standardInput ≠ .ok text.toUTF8) :
    ∃ message, performBytes dialect args files standardInput = .unusable message := by
  rw [performBytes_eq]
  split
  · exact ⟨_, rfl⟩
  · next text htext =>
    split
    · exact ⟨_, rfl⟩
    · next input hinput =>
      rcases h with h | h
      · exact absurd (readAs_eq_ok_iff.1 htext) (h text)
      · exact absurd (readAs_eq_ok_iff.1 hinput) (h input)

/-- **An unusable command says why**, and comes to nothing else. -/
theorem Unusable.performBytes_eq (h : Unusable dialect args files standardInput) :
    ∃ message, performBytes dialect args files standardInput = .unusable message := by
  by_cases hinput : ∀ text : String, inputBytes args files standardInput ≠ .ok text.toUTF8
  · exact performBytes_of_unreadable (.inr hinput)
  obtain ⟨input, hinput⟩ := not_forall_not.1 hinput
  cases h with
  | grammar hnone => exact performBytes_of_unreadable (.inl hnone)
  | input hnone => exact absurd hinput (hnone input)
  | rejected htext hcompile =>
    rw [performBytes_eq_matchInput htext hinput]
    unfold matchInput
    rw [hcompile]
    exact ⟨_, rfl⟩
  | noRule htext hcompile hrule =>
    rw [performBytes_eq_matchInput htext hinput]
    unfold matchInput
    rw [hcompile]
    dsimp only
    rw [hrule]
    exact ⟨_, rfl⟩

/-- **A run is told by its result.** -/
theorem Runs.performBytes_eq (h : Runs dialect args files standardInput result) :
    performBytes dialect args files standardInput = .telling args.json result := by
  obtain ⟨htext, hinput, hcompile, hrule, hrun⟩ := h
  rw [performBytes_eq_matchInput htext hinput]
  unfold matchInput
  rw [hcompile]
  dsimp only
  rw [hrule]
  dsimp only
  rw [maxDepth_of_compile hcompile, hrun]
  cases result with
  | ok t => rfl
  | error e => rfl

/-- Being unusable has nothing to do with how the result is told, with the limit, or with what the
input is as long as it can be read. -/
theorem Unusable.congr {args' : Arguments} (h : Unusable dialect args files standardInput)
    (hname : args'.grammar = args.grammar) (hrule : args'.rule = args.rule)
    (hsensitive : args'.sensitive = args.sensitive)
    (hgrammar : files' args.grammar = files args.grammar)
    (hinput : (∃ text : String, inputBytes args' files' standardInput' = .ok text.toUTF8) →
      ∃ text : String, inputBytes args files standardInput = .ok text.toUTF8) :
    Unusable dialect args' files' standardInput' := by
  have hsame : files' args'.grammar = files args.grammar := by rw [hname, hgrammar]
  cases h with
  | grammar hnone => exact .grammar (by rwa [hsame])
  | input hnone =>
    refine .input fun text htext => ?_
    obtain ⟨text', htext'⟩ := hinput ⟨text, htext⟩
    exact hnone text' htext'
  | rejected htext hcompile =>
    exact .rejected (hsame.trans htext) (by rw [hsensitive]; exact hcompile)
  | noRule htext hcompile hget =>
    exact .noRule (hsame.trans htext) (by rw [hsensitive]; exact hcompile)
      (by rw [hrule]; exact hget)

/-! ## Exit codes -/

theorem Unusable.code_eq (h : Unusable dialect args files standardInput) :
    (performBytes dialect args files standardInput).code = 2 := by
  obtain ⟨message, hexit⟩ := h.performBytes_eq
  rw [hexit]
  rfl

/-- A result is told with 0 or 1, as it is a tree or an error. -/
theorem Runs.code_eq (h : Runs dialect args files standardInput result) :
    (performBytes dialect args files standardInput).code = if result.isOk then 0 else 1 := by
  rw [h.performBytes_eq]
  cases result with
  | ok t => rfl
  | error e => cases args.json <;> rfl

/-- The command is unusable just where its code is 2. -/
theorem code_eq_two_iff : (performBytes dialect args files standardInput).code = 2 ↔
    Unusable dialect args files standardInput := by
  refine ⟨fun hcode => ?_, Unusable.code_eq⟩
  refine (unusable_or_runs dialect args files standardInput).resolve_right fun ⟨result, hruns⟩ => ?_
  rw [hruns.code_eq] at hcode
  split at hcode <;> omega

/-- With any other code it has run, and the code tells a tree from an error. -/
theorem runs_of_code_ne_two (dialect : Pattern.Dialect) (args : Arguments)
    (files : String → Except ReadError ByteArray) (standardInput : Except ReadError ByteArray)
    (h : (performBytes dialect args files standardInput).code ≠ 2) :
    ((performBytes dialect args files standardInput).code = 0 ∧
        ∃ t, Runs dialect args files standardInput (.ok t)) ∨
      ((performBytes dialect args files standardInput).code = 1 ∧
        ∃ e, Runs dialect args files standardInput (.error e)) := by
  obtain hunusable | ⟨result, hruns⟩ := unusable_or_runs dialect args files standardInput
  · exact absurd hunusable.code_eq h
  · cases result with
    | ok t => exact .inl ⟨hruns.code_eq, t, hruns⟩
    | error e => exact .inr ⟨hruns.code_eq, e, hruns⟩

/-- **The exit code tells what became of the command.** It is 2 just where a text cannot be read as
UTF-8, the grammar does not compile or the rule is not in it; and then a message goes to standard
error. Otherwise it is 0 just where the rule of the grammar, run over the input within the limit,
comes to a tree, which goes to standard output, as JSON or as text; and 1 just where it comes to an
error, which goes to standard output as JSON or else to standard error. No code is left. What is
written is the tree: as JSON no other tree has it, but for byte offsets, and as text, which has a
line for each node, no tree that shows anything else. Likewise no other error has the JSON of one,
and its line says where it is and what was expected. That the code is 2 does not depend on whether
JSON is asked for, on the limit, or on the input and where it is from, as long as it can be read. -/
theorem performBytes_exits (dialect : Pattern.Dialect) (args : Arguments)
    (files : String → Except ReadError ByteArray) (standardInput : Except ReadError ByteArray) :
    ((performBytes dialect args files standardInput).code = 2 ↔
      Unusable dialect args files standardInput) ∧
    ((performBytes dialect args files standardInput).code = 0 ↔
      ∃ t, Runs dialect args files standardInput (.ok t)) ∧
    ((performBytes dialect args files standardInput).code = 1 ↔
      ∃ e, Runs dialect args files standardInput (.error e)) ∧
    (performBytes dialect args files standardInput).code ∈ [0, 1, 2] ∧
    (Unusable dialect args files standardInput → ∃ message,
      performBytes dialect args files standardInput = ⟨2, "", "error: " ++ message ++ "\n"⟩) ∧
    (∀ t, Runs dialect args files standardInput (.ok t) →
      performBytes dialect args files standardInput =
        ⟨0, if args.json then t.json ++ "\n" else t.text, ""⟩ ∧
      t.text = String.join (t.rows.map fun r => r.shown ++ "\n") ∧
      ∀ u : Tree, (t.json = u.json ↔ t.withoutOffsets = u.withoutOffsets) ∧
        (u.Plain → (t.text = u.text ↔ t.visible = u.visible))) ∧
    (∀ e, Runs dialect args files standardInput (.error e) →
      performBytes dialect args files standardInput =
        (if args.json then ⟨1, e.json ++ "\n", ""⟩ else ⟨1, "", e.message ++ "\n"⟩) ∧
      e.SaidBy e.message ∧
      ∀ f : ParseError, e.json = f.json ↔ e.position = f.position ∧ e.expected = f.expected ∧
        e.found = f.found ∧ e.message = f.message) ∧
    ∀ json maxDepth input files' standardInput', files' args.grammar = files args.grammar →
      ((∃ text : String, inputBytes { args with input := input } files' standardInput' =
          .ok text.toUTF8) ↔
        ∃ text : String, inputBytes args files standardInput = .ok text.toUTF8) →
      ((performBytes dialect { args with json := json, maxDepth := maxDepth, input := input }
          files' standardInput').code = 2 ↔
        (performBytes dialect args files standardInput).code = 2) := by
  have hother := runs_of_code_ne_two dialect args files standardInput
  refine ⟨code_eq_two_iff, ⟨fun hcode => ?_, fun ⟨t, hruns⟩ => hruns.code_eq⟩,
    ⟨fun hcode => ?_, fun ⟨e, hruns⟩ => hruns.code_eq⟩, ?_, Unusable.performBytes_eq,
    fun t hruns => ⟨hruns.performBytes_eq, t.text_eq,
      fun u => ⟨Tree.json_eq_iff, fun hu => Tree.text_eq_iff hruns.plain hu⟩⟩,
    fun e hruns => ⟨hruns.performBytes_eq, e.saidBy_message, fun f => ParseError.json_eq_iff⟩,
    fun json maxDepth input files' standardInput' hgrammar hreads => ?_⟩
  · obtain ⟨-, ht⟩ | ⟨hone, -⟩ := hother (by omega)
    · exact ht
    · omega
  · obtain ⟨hzero, -⟩ | ⟨-, he⟩ := hother (by omega)
    · omega
    · exact he
  · simp only [List.mem_cons, List.not_mem_nil, or_false]
    by_cases hcode : (performBytes dialect args files standardInput).code = 2
    · exact .inr (.inr hcode)
    · exact (hother hcode).imp And.left fun he => .inl he.1
  · rw [code_eq_two_iff, code_eq_two_iff]
    constructor
    · intro h
      exact h.congr rfl rfl rfl hgrammar.symm hreads.2
    · intro h
      exact h.congr rfl rfl rfl hgrammar hreads.1

/-- A rule that goes on with itself matches an input, and does not where parsers may not nest. With
another rule the command is unusable, however the input is given as long as it can be read. -/
theorem performBytes_exits_recursive :
    performBytes .plain ⟨"xy.g", "a", none, false, false, none⟩ (fun _ => .ok "a:'x'a|'y';".toUTF8)
      (.ok "x y ".toUTF8) = ⟨0, recursiveTree.text, ""⟩ ∧
    performBytes .plain ⟨"xy.g", "a", none, true, false, some 2⟩ (fun _ => .ok "a:'x'a|'y';".toUTF8)
        (.ok "x y ".toUTF8) =
      ⟨1, (ParseError.failing ⟨0, 1, 1⟩ "input nests deeper than 2 parsers" (some 'x')).json ++
        "\n", ""⟩ ∧
    (performBytes .plain ⟨"xy.g", "b", none, false, false, none⟩ (fun _ => .ok "a:'x'a|'y';".toUTF8)
      (.ok "x y ".toUTF8)).code = 2 ∧
    (performBytes .plain ⟨"xy.g", "b", some "in", true, false, some 2⟩
      (fun _ => .ok "a:'x'a|'y';".toUTF8) (.error .notFound)).code = 2 := by
  have hmatched : (recursiveGraph.setMaxDepth 256).run ⟨0, 0⟩ "x y " = .ok (.ok recursiveTree) :=
    rfl
  have hstopped : (recursiveGraph.setMaxDepth 2).run ⟨0, 0⟩ "x y " = .ok (.error
      (.failing ⟨0, 1, 1⟩ "input nests deeper than 2 parsers" (some 'x'))) := by
    cbv
  obtain ⟨-, -, -, -, -, htree, -⟩ := performBytes_exits .plain
    ⟨"xy.g", "a", none, false, false, none⟩ (fun _ => .ok "a:'x'a|'y';".toUTF8)
    (.ok "x y ".toUTF8)
  obtain ⟨-, -, -, -, -, -, herror, -⟩ := performBytes_exits .plain
    ⟨"xy.g", "a", none, true, false, some 2⟩ (fun _ => .ok "a:'x'a|'y';".toUTF8)
    (.ok "x y ".toUTF8)
  obtain ⟨htwo, -, -, -, -, -, -, hsame⟩ := performBytes_exits .plain
    ⟨"xy.g", "b", none, false, false, none⟩ (fun _ => .ok "a:'x'a|'y';".toUTF8)
    (.ok "x y ".toUTF8)
  have hunusable := htwo.2 (.noRule rfl compile_recursive rfl)
  refine ⟨(htree _ (.intro rfl rfl compile_recursive rfl hmatched)).1,
    (herror _ (.intro rfl rfl compile_recursive rfl hstopped)).1, hunusable, ?_⟩
  refine (hsame true (some 2) (some "in") (fun _ => .ok "a:'x'a|'y';".toUTF8) (.error .notFound) rfl
    ?_).2 hunusable
  exact iff_of_true ⟨_, rfl⟩ ⟨_, rfl⟩

end ParserGraph.CommandLine
