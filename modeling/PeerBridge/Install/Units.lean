import PeerBridge.Runtime.RoundTrip

/-!
# Service units

The installer writes one command line into each unit, every argument a JSON string in which `%` and
`$` are doubled, and reads it back from the file to decide whether the unit is its own. The reader
takes the file apart with `str.splitlines`, which ends a line at more characters than a newline; the
JSON encoder escapes the control characters among them, and writes three of them as they are.

* `unit_arguments_round_trip`: the arguments come back exactly when none contains one of the three;
* `scanArguments_join`: a whole line reads back; `scanArguments_cut`: a line cut inside an argument
  does not.

Source: `scripts/install.py`, `unit_arg`, `units`, `unit_arguments`, `unit_literal`.
-/

namespace PeerBridge.Install

open Py

/-! ## Rendering -/

/-- `text.replace(old, new)` for one character. -/
def replace (old : CodePoint) (new : Text) (t : Text) : Text :=
  t.flatMap fun c => if c = old then new else [c]

/-- One character of `json.dumps(text, ensure_ascii=False)`. -/
def escapeLiteral (c : CodePoint) : Text :=
  if c.val = 0x22 then lit "\\\""
  else if c.val = 0x5c then lit "\\\\"
  else if c.val = 0x0a then lit "\\n"
  else if c.val = 0x0d then lit "\\r"
  else if c.val = 0x09 then lit "\\t"
  else if c.val = 0x0c then lit "\\f"
  else if c.val = 0x08 then lit "\\b"
  else if c.val < 0x20 then hexEscape c.val
  else [c]

/-- `json.dumps(text, ensure_ascii=False)`. -/
def quoteLiteral (t : Text) : Text := lit "\"" ++ t.flatMap escapeLiteral ++ lit "\""

/-- The argument with `%` and `$` doubled. Source: `unit_arg` -/
def doubled (value : Text) : Text := replace 0x24 (lit "$$") (replace 0x25 (lit "%%") value)

/-- Membership in a text is decided by comparing code points. -/
local instance lawfulCodePoint : LawfulBEq CodePoint := inferInstance

/-- Source: `unit_arg` -/
def unitArg (value : Text) : Option Text :=
  if value.any fun c => c ∈ lit "\n\r\x00" then none else some (quoteLiteral (doubled value))

/-- Source: `runtime_names.SERVICE_MARKER` -/
def marker : Text := lit "# Managed by koinon\n"

/-- What stands behind the command in every unit. Source: `units`, `permanent` and `common` -/
def tail : Text :=
  lit "\nRestartPreventExitStatus=70 78\nRestart=on-failure\nRestartSec=5\nUMask=0077\n\n[Install]\nWantedBy=default.target\n"

/-- The units of an installation. -/
inductive Kind where
  | bridge
  | notify (legacy : Bool)
  | session

/-- Source: `runtime_names.service_names`, the bridge's unit -/
def bridgeName (legacy : Bool) : Text :=
  if legacy then lit "codex-peer-bridge.service" else lit "koinon-bridge.service"

/-- What stands before the command. Source: `units` -/
def Kind.head : Kind → Text
  | .bridge =>
    lit "[Unit]\nDescription=Koinon local peer messaging bridge\n\n[Service]\nType=simple\n"
  | .notify legacy => lit "[Unit]\nDescription=Koinon inbox notifications\nRequires="
    ++ bridgeName legacy
      ++ lit "\nAfter=" ++ bridgeName legacy ++ lit "\n\n[Service]\nType=simple\n"
  | .session => lit "[Unit]\nDescription=Koinon session supervisor\n\n[Service]\nType=simple\n"

/-- `' '.join(map(unit_arg, args))`. -/
def joinArgs (rendered : List Text) : Text := List.intercalate (lit " ") rendered

/-- The text of a unit, `none` where an argument is refused. Source: `units` -/
def unitText (kind : Kind) (args : List Text) : Option Text :=
  (args.mapM unitArg).map fun rendered => marker ++ kind.head ++ lit "ExecStart="
  ++ joinArgs rendered ++ tail

/-- `path.write_text(text)`, `none` where the text has no encoding. -/
def written (text : Text) : Option Text := if encodable text then some text else none

/-- The file of a unit. -/
def unitFile (kind : Kind) (args : List Text) : Option Text := (unitText kind args).bind written

/-- What the installer renders units from; the paths are absolute. -/
structure Options where
  installRoot : Text
  state : Text
  thread : Text
  name : Text
  repo : Text
  python : Text
  codex : Text
  supervised : Option Text
  agent : Text
  model : Option Text
  dshUrl : Option Text
  dshCredentials : Option Text
  legacy : Bool

/-- `str(root / name)`. -/
def joinPath (root name : Text) : Text :=
  if root = lit "/" then root ++ name else root ++ lit "/" ++ name

/-- `[flag, value]`, or nothing where there is no value. -/
def optionalFlag (flag : Text) : Option Text → List Text
  | some value => if value = [] then [] else [flag, value]
  | none => []

/-- Source: `units`, `base` -/
def Options.base (o : Options) : List Text :=
  [o.python, joinPath o.installRoot (lit "bridge.py"), lit "--state-dir", o.state, lit "serve"]

/-- Source: `units`, `watcher` -/
def Options.watcher (o : Options) : List Text :=
  [o.python, joinPath o.installRoot (lit "notify.py"), lit "--state-dir", o.state,
    lit "--thread", o.thread,
      lit "--name", o.name, lit "--repo", o.repo]
    ++ (if o.agent = lit "codex" then [] else [lit "--agent", o.agent])
    ++ (if o.agent = lit "deepseek" then
          optionalFlag (lit "--dsh-url") o.dshUrl ++ optionalFlag (lit "--dsh-credentials")
          o.dshCredentials
        else [lit "--codex", o.codex])

/-- Source: `start_command_for` -/
def Options.supervisor (o : Options) : List Text :=
  [o.python, joinPath o.installRoot (lit "session.py"), lit "run", lit "--thread", o.thread,
    lit "--repo", o.repo]
    ++ (if o.agent = lit "codex" then [] else [lit "--agent", o.agent])
    ++ optionalFlag (lit "--model") o.model

/-- `re.fullmatch('[a-f0-9]{16}', text)`. -/
def isInstance (t : Text) : Bool :=
  t.length == 16 && t.all fun c => (0x61 ≤ c.val && c.val ≤ 0x66) || (0x30 ≤ c.val && c.val ≤ 0x39)

/-- The units of an installation with their names. Source: `units` -/
def units (o : Options) : Option (List (Text × Text)) := do
  let stem := if o.legacy then lit "codex-peer" else lit "koinon"
  let bridge ← unitText .bridge o.base
  let notify ← unitText (.notify o.legacy) o.watcher
  match o.supervised with
  | some key =>
      if key = [] then some [(bridgeName o.legacy, bridge), (stem ++ lit "-notify.service", notify)]
      else if isInstance key then
        (unitText .session o.supervisor).map fun text =>
          [(stem ++ lit "-session-" ++ key ++ lit ".service", text)]
      else none
  | none => some [(bridgeName o.legacy, bridge), (stem ++ lit "-notify.service", notify)]

/-! ## Reading -/

/-- The characters that end a line for `str.splitlines`. -/
def isLineEnd (c : CodePoint) : Bool :=
  (0xa ≤ c.val && c.val ≤ 0xd) || (0x1c ≤ c.val && c.val ≤ 0x1e) || c.val == 0x85 || c.val == 0x2028
    || c.val == 0x2029

/-- `text.splitlines()` behind the characters `line` of the current line. `afterCR` says that a
carriage return ended the last line, and a newline belongs to it. -/
def splitlinesFrom : Text → Text → Bool → List Text
  | [], line, _ => if line = [] then [] else [line]
  | c :: rest, line, afterCR =>
      if afterCR ∧ c.val = 0xa then splitlinesFrom rest [] false
      else if isLineEnd c then line :: splitlinesFrom rest [] (c.val == 0xd)
      else splitlinesFrom rest (line ++ [c]) false

/-- `text.splitlines()`. -/
def splitlines (t : Text) : List Text := splitlinesFrom t [] false

/-- `path.read_text()` makes every line end a newline. -/
def universalNewlines : Text → Text
  | [] => []
  | [c] => if c.val = 0xd then [0xa] else [c]
  | c :: d :: rest =>
      if c.val = 0xd then
        if d.val = 0xa then universalNewlines (d :: rest) else 0xa :: universalNewlines (d :: rest)
      else c :: universalNewlines (d :: rest)

/-- The commands of a unit. Source: `unit_arguments`, `starts` -/
def starts (lines : List Text) : List Text :=
  (lines.filter fun l => (lit "ExecStart=").isPrefixOf l).map fun l =>
    l.drop (lit "ExecStart=").length

/-- The arguments of a command. Source: `unit_arguments`, the loop -/
def scanArguments : ℕ → Text → Option (List Text)
  | 0, _ => none
  | _ + 1, [] => some []
  | fuel + 1, c :: rest =>
      if isSpace c then scanArguments fuel rest
      else if c.val = 0x22 then
        match rawDecode (fun m => some (.obj (dictOf m))) (c :: rest) with
        | some (.str value, after) =>
            if after.head?.any fun d => !isSpace d then none
            else (scanArguments fuel after).map (value :: ·)
        | _ => none
      else
        let word := (c :: rest).takeWhile fun d => !isSpace d
        if word.any fun d => d ∈ lit "\"'\\" then none
        else (scanArguments fuel ((c :: rest).dropWhile fun d => !isSpace d)).map (word :: ·)

/-- The arguments of the one command there must be. Source: `unit_arguments` -/
def commandArguments : List Text → Option (List Text)
  | [command] => scanArguments (command.length + 1) command
  | _ => none

/-- Source: `unit_arguments` -/
def unitArguments (text : Text) : Option (List Text) :=
  commandArguments (starts (splitlines (universalNewlines text)))

/-- Source: `unit_literal` -/
def unitLiteral : Text → Option Text
  | [] => some []
  | [c] => if c = 0x25 ∨ c = 0x24 then none else some [c]
  | c :: d :: rest =>
      if c = 0x25 ∨ c = 0x24 then
        if d = c then (unitLiteral rest).map (c :: ·) else none
      else (unitLiteral (d :: rest)).map (c :: ·)

/-- The arguments as they were given. -/
def readBack (text : Text) : Option (List Text) := (unitArguments text).bind fun args =>
    args.mapM unitLiteral

/-- A line separator of Unicode that the encoder writes as it is. -/
def isUnicodeLineEnd (c : CodePoint) : Bool := c.val == 0x85 || c.val == 0x2028 || c.val == 0x2029

/-! ## One argument -/

/-- Replacing goes character by character. -/
theorem replace_cons (old c : CodePoint) (new t : Text) :
    replace old new (c :: t) = (if c = old then new else [c]) ++ replace old new t := rfl

/-- Doubling goes character by character. -/
theorem doubled_cons (c : CodePoint) (t : Text) :
    doubled (c :: t) = (if c = 0x25 ∨ c = 0x24 then [c, c] else [c]) ++ doubled t := by
  have hlit : lit "$$" = [0x24, 0x24] ∧ lit "%%" = [0x25, 0x25] := by decide
  have hne : (0x25 : CodePoint) ≠ 0x24 := by decide
  unfold doubled
  rw [replace_cons, hlit.1, hlit.2]
  by_cases h5 : c = 0x25
  · subst h5
    rw [if_pos rfl, if_pos (.inl rfl), List.cons_append, List.cons_append, List.nil_append,
      replace_cons,
      replace_cons, if_neg hne]
    rfl
  · rw [if_neg h5, List.cons_append, List.nil_append, replace_cons]
    by_cases h4 : c = 0x24
    · subst h4
      rw [if_pos rfl, if_pos (.inr rfl)]
    · rw [if_neg h4, if_neg (fun h => h.elim h5 h4)]

/-- Doubling the marks adds no other characters. -/
theorem mem_doubled {c : CodePoint} {t : Text} : c ∈ doubled t ↔ c ∈ t := by
  induction t with
  | nil => rfl
  | cons d t ih =>
    rw [doubled_cons, List.mem_append, ih, List.mem_cons]
    refine or_congr ?_ Iff.rfl
    split
    · simp
    · simp

/-- A character that is no mark stands for itself in a unit. -/
theorem unitLiteral_cons {c : CodePoint} (hc : ¬ (c = 0x25 ∨ c = 0x24)) (t : Text) :
    unitLiteral (c :: t) = (unitLiteral t).map (c :: ·) := by
  rcases t with _ | ⟨d, t⟩
  · exact if_neg hc
  · rw [unitLiteral, if_neg hc]

/-- Doubled specifiers decode to themselves. -/
theorem unitLiteral_doubled (t : Text) : unitLiteral (doubled t) = some t := by
  induction t with
  | nil => rfl
  | cons c t ih =>
    rw [doubled_cons]
    split
    · next hc =>
      rw [List.cons_append, List.cons_append, List.nil_append, unitLiteral, if_pos hc,
        if_pos rfl, ih]
      rfl
    · next hc =>
      rw [List.cons_append, List.nil_append, unitLiteral_cons hc, ih]
      rfl

/-- A character and what the encoder makes of it: the scanner reads it back. -/
theorem scanChar_escapeLiteral (c : CodePoint) (rest : Text) :
    scanChar (escapeLiteral c ++ rest) = some (some c, rest) := by
  have hval : ∀ n : CodePoint, c.val = n.val → c = n := fun n h => Fin.ext h
  unfold escapeLiteral
  split
  · next h => rw [hval 0x22 h]; rfl
  · split
    · next h => rw [hval 0x5c h]; rfl
    · split
      · next h => rw [hval 0xa h]; rfl
      · split
        · next h => rw [hval 0xd h]; rfl
        · split
          · next h => rw [hval 0x9 h]; rfl
          · split
            · next h => rw [hval 0xc h]; rfl
            · split
              · next h => rw [hval 0x8 h]; rfl
              · split
                · next h =>
                  have hhigh : isHigh c = true → Unpaired rest := by
                    intro hh
                    simp only [isHigh, Bool.and_eq_true, decide_eq_true_eq] at hh
                    omega
                  rw [hexEscape_eq, List.cons_append, List.cons_append, scanChar_unicode,
                    scanUnicode_hexDigits (by omega) hhigh]
                  rfl
                · next h1 h2 _ _ _ _ _ h3 =>
                  rw [List.cons_append, List.nil_append, scanChar, if_neg h1, if_neg h2,
                    if_neg (by omega)]

/-- Every character is written as something. -/
theorem escapeLiteral_ne_nil (c : CodePoint) : escapeLiteral c ≠ [] := by
  intro h
  have hc := scanChar_escapeLiteral c []
  rw [h] at hc
  cases hc

/-- Escaping does not shorten a text. -/
theorem length_le_flatMap (t : Text) : t.length ≤ (t.flatMap escapeLiteral).length := by
  induction t with
  | nil => simp
  | cons c t ih =>
    have hc := List.length_pos_iff.mpr (escapeLiteral_ne_nil c)
    rw [List.flatMap_cons, List.length_append, List.length_cons]
    omega

/-- A quoted argument in front of another text, from its opening quote on. -/
theorem quoteLiteral_append (t rest : Text) :
    quoteLiteral t ++ rest = 0x22 :: (t.flatMap escapeLiteral ++ 0x22 :: rest) := by
  have hq : lit "\"" = [0x22] := by decide
  rw [quoteLiteral, hq]
  simp

section decoding

variable (hook : Object → Option Json)

/-- A quoted argument decodes to itself. -/
theorem rawDecode_quoteLiteral (t rest : Text) :
    rawDecode hook (quoteLiteral t ++ rest) = some (.str t, rest) := by
  have hlen := length_le_flatMap t
  have hscan : scanString ((t.flatMap escapeLiteral ++ 0x22 :: rest).length + 1)
      (t.flatMap escapeLiteral ++ 0x22 :: rest) = some (t, rest) := by
    refine scanString_flatMap escapeLiteral rest ?_ fun front c back _ => scanChar_escapeLiteral c _
    rw [List.length_append]
    omega
  rw [quoteLiteral_append, rawDecode, scanValue_quote, hscan]
  rfl

/-- An argument without its closing quote does not decode. -/
theorem scanString_open (t : Text) :
    (fuel : ℕ) → scanString fuel (t.flatMap escapeLiteral) = none := by
  induction t with
  | nil =>
    rintro (_ | fuel)
    · rfl
    · rfl
  | cons c t ih =>
    rintro (_ | fuel)
    · rfl
    · rw [List.flatMap_cons, scanString, scanChar_escapeLiteral]
      simp only
      rw [ih fuel]
      rfl

/-- An argument without its closing quote is not read. -/
theorem rawDecode_open (t : Text) : rawDecode hook (0x22 :: t.flatMap escapeLiteral) = none := by
  rw [rawDecode, scanValue_quote, scanString_open]
  rfl

end decoding

/-! ## A command -/

/-- Two arguments are a blank apart. -/
theorem joinArgs_cons (a b : Text) (rest : List Text) :
    joinArgs (a :: b :: rest) = a ++ 0x20 :: joinArgs (b :: rest) := by
  have hspace : lit " " = [0x20] := by decide
  simp [joinArgs, List.intercalate, hspace]

/-- A quoted argument is read back before a blank or the end. -/
theorem scanArguments_quote (fuel : ℕ) (t : Text) {rest : Text}
    (hrest : ∀ c ∈ rest.head?, isSpace c = true) :
    scanArguments (fuel + 1) (quoteLiteral t ++ rest) = (scanArguments fuel rest).map (t :: ·) := by
  have hdecode := rawDecode_quoteLiteral (fun m => some (.obj (dictOf m))) t rest
  have hhead : ¬ rest.head?.any (fun d => !isSpace d) = true := by
    rw [Option.any_eq_true]
    rintro ⟨c, hc, hno⟩
    rw [hrest c hc] at hno
    cases hno
  have hquote : ¬ isSpace (0x22 : CodePoint) = true ∧ (0x22 : CodePoint).val = 0x22 := by decide
  rw [quoteLiteral_append] at hdecode ⊢
  rw [scanArguments, if_neg hquote.1, if_pos hquote.2, hdecode]
  simp only
  rw [if_neg hhead]

/-- A blank between arguments is skipped. -/
theorem scanArguments_space (fuel : ℕ) (rest : Text) :
    scanArguments (fuel + 1) (0x20 :: rest) = scanArguments fuel rest := by
  have hspace : isSpace (0x20 : CodePoint) = true := by decide
  rw [scanArguments, if_pos hspace]

/-- A command reads back argument by argument. -/
theorem scanArguments_join : (args : List Text) → (fuel : ℕ) →
    (joinArgs (args.map quoteLiteral)).length + 1 ≤ fuel →
      scanArguments fuel (joinArgs (args.map quoteLiteral)) = some args
  | [], fuel, hfuel => by
      obtain ⟨fuel, rfl⟩ : ∃ f, fuel = f + 1 := ⟨fuel - 1, by omega⟩
      rfl
  | [a], fuel, hfuel => by
      have hone : joinArgs ([a].map quoteLiteral) = quoteLiteral a ++ [] := by
        simp [joinArgs, List.intercalate]
      have hq : lit "\"" = [0x22] := by decide
      rw [hone] at hfuel ⊢
      rw [quoteLiteral, hq] at hfuel
      simp only [List.length_append, List.length_singleton, List.length_nil] at hfuel
      obtain ⟨fuel, rfl⟩ : ∃ f, fuel = f + 2 := ⟨fuel - 2, by omega⟩
      rw [scanArguments_quote _ _ (fun c hc => by cases hc)]
      rfl
  | a :: b :: rest, fuel, hfuel => by
      have hq : lit "\"" = [0x22] := by decide
      rw [List.map_cons, List.map_cons, joinArgs_cons] at hfuel ⊢
      rw [quoteLiteral, hq] at hfuel
      simp only [List.length_append, List.length_cons, List.length_nil] at hfuel
      obtain ⟨fuel, rfl⟩ : ∃ f, fuel = f + 2 := ⟨fuel - 2, by omega⟩
      have ih := scanArguments_join (b :: rest) fuel (by simp only [List.map_cons]; omega)
      rw [List.map_cons] at ih
      have hhead : ∀ c ∈ (0x20 :: joinArgs (quoteLiteral b :: rest.map quoteLiteral)).head?,
          isSpace c = true := by
        intro c hc
        obtain rfl := Option.some.inj hc
        decide
      rw [scanArguments_quote _ _ hhead, scanArguments_space, ih]
      rfl

/-- A command cut inside an argument is refused. -/
theorem scanArguments_cut (t : Text) : (args : List Text) → (fuel : ℕ) →
    scanArguments fuel (args.flatMap (fun a => quoteLiteral a ++ [0x20]) ++ 0x22
      :: t.flatMap escapeLiteral) = none
  | _, 0 => rfl
  | [], fuel + 1 => by
      have hquote : ¬ isSpace (0x22 : CodePoint) = true ∧ (0x22 : CodePoint).val = 0x22 := by decide
      rw [List.flatMap_nil, List.nil_append, scanArguments, if_neg hquote.1, if_pos hquote.2,
        rawDecode_open]
  | a :: args, fuel + 1 => by
      have htext : (a :: args).flatMap (fun a => quoteLiteral a ++ [0x20]) ++ 0x22
        :: t.flatMap escapeLiteral
          = quoteLiteral a ++ 0x20 ::
            (args.flatMap (fun a => quoteLiteral a ++ [0x20]) ++ 0x22
              :: t.flatMap escapeLiteral) := by
        simp
      rw [htext, scanArguments_quote]
      · rcases fuel with _ | fuel
        · rfl
        · rw [scanArguments_space, scanArguments_cut t args fuel]
          rfl
      · intro c hc
        obtain rfl := Option.some.inj hc
        decide

/-! ## Lines -/

/-- A newline ends a line. -/
theorem splitlinesFrom_newline (b : Text) : (a line : Text) → (afterCR : Bool) →
    splitlinesFrom (a ++ 0xa :: b) line afterCR
      = splitlinesFrom (a ++ [0xa]) line afterCR ++ splitlinesFrom b [] false
  | [], line, afterCR => by
      have hend : isLineEnd (0xa : CodePoint) = true := by decide
      by_cases hcr : afterCR = true ∧ (0xa : CodePoint).val = 0xa
      · simp [splitlinesFrom, hcr.1]
      · have hcr' : afterCR = false := by
          by_contra h
          exact hcr ⟨by simpa using h, rfl⟩
        simp [splitlinesFrom, hcr', hend]
  | c :: a, line, afterCR => by
      rw [List.cons_append, List.cons_append, splitlinesFrom, splitlinesFrom]
      split
      · exact splitlinesFrom_newline b a [] false
      · split
        · rw [splitlinesFrom_newline b a [] _]
          rfl
        · exact splitlinesFrom_newline b a _ false

/-- A line runs to the first character that ends it. -/
theorem splitlinesFrom_plain {c : CodePoint} (hc : isLineEnd c = true) (rest : Text) :
    (l line : Text) →
    (∀ d ∈ l, isLineEnd d = false) →
      splitlinesFrom (l ++ c :: rest) line false = (line ++ l) :: splitlinesFrom rest []
      (c.val == 0xd)
  | [], line, _ => by
      rw [List.nil_append, splitlinesFrom, if_neg (by simp), if_pos hc, List.append_nil]
  | d :: l, line, hl => by
      have hd := hl d List.mem_cons_self
      rw [List.cons_append, splitlinesFrom, if_neg (by simp), if_neg (by simp [hd]),
        splitlinesFrom_plain hc rest l _ fun e he => hl e (List.mem_cons_of_mem _ he)]
      simp

/-- A text without a carriage return stays as it is. -/
theorem universalNewlines_eq : (t : Text) → (∀ c ∈ t, c.val ≠ 0xd) → universalNewlines t = t
  | [], _ => rfl
  | [c], h => if_neg (h c List.mem_cons_self)
  | c :: d :: t, h => by
      have ih := universalNewlines_eq (d :: t) fun e he => h e (List.mem_cons_of_mem _ he)
      rw [universalNewlines, if_neg (h c List.mem_cons_self), ih]

/-- The start lines of two groups of lines are those of both. -/
theorem starts_append (a b : List Text) : starts (a ++ b) = starts a ++ starts b := by
  rw [starts, List.filter_append, List.map_append]
  rfl

/-- A start line yields its command. -/
theorem starts_command (command : Text) (more : List Text) :
    starts ((lit "ExecStart=" ++ command) :: more) = command :: starts more := by
  have hmatch : (lit "ExecStart=").isPrefixOf (lit "ExecStart=" ++ command) = true :=
    List.isPrefixOf_iff_prefix.mpr (List.prefix_append _ _)
  rw [starts, List.filter_cons_of_pos hmatch, List.map_cons, List.drop_left]
  rfl

/-- The fixed parts of a unit have no command of their own and no carriage return. -/
theorem kind_head (kind : Kind) : starts (splitlines (marker ++ kind.head)) = []
    ∧ (marker ++ kind.head).all (fun c => decide (c.val ≠ 0xd)) = true
    ∧ encodable (marker ++ kind.head) = true
    ∧ ∃ front, marker ++ kind.head = front ++ [0xa] := by
  have hlast : ∀ t : Text, t.getLast? = some 0xa → ∃ front, t = front ++ [0xa] := by
    intro t ht
    exact List.getLast?_eq_some_iff.mp ht
  have hall : starts (splitlines (marker ++ kind.head)) = []
      ∧ (marker ++ kind.head).all (fun c => decide (c.val ≠ 0xd)) = true
      ∧ encodable (marker ++ kind.head) = true
      ∧ (marker ++ kind.head).getLast? = some 0xa := by
    rcases kind with _ | (_ | _) | _
    all_goals
      simp only [marker, Kind.head, bridgeName]
      repeat rw [lit_ofList]
      decide +kernel
  exact ⟨hall.1, hall.2.1, hall.2.2.1, hlast _ hall.2.2.2⟩

/-- What follows the start line in every unit has no start line, no carriage return and can be
encoded. -/
theorem tail_parts : (∃ back, tail = 0xa :: back ∧ starts (splitlines back) = [])
    ∧ tail.all (fun c => decide (c.val ≠ 0xd)) = true ∧ encodable tail = true := by
  have hall : tail = 0xa :: tail.drop 1 ∧ starts (splitlines (tail.drop 1)) = []
      ∧ tail.all (fun c => decide (c.val ≠ 0xd)) = true ∧ encodable tail = true := by
    rw [tail, lit_ofList]
    decide +kernel
  exact ⟨⟨_, hall.1, hall.2.1⟩, hall.2.2⟩

/-- The key of the start line ends no line. -/
theorem execStart_plain : ∀ d ∈ lit "ExecStart=", isLineEnd d = false := by
  have hexec : (lit "ExecStart=").all (fun d => !isLineEnd d) = true := by decide
  intro d hd
  simpa using List.all_eq_true.mp hexec d hd

/-- The commands of a unit are those of its command line. -/
theorem starts_file (kind : Kind) (body : Text) :
    starts (splitlines (marker ++ kind.head ++ lit "ExecStart=" ++ body ++ tail))
      = starts (splitlinesFrom (lit "ExecStart=" ++ body ++ [0xa]) [] false) := by
  obtain ⟨hhead, -, -, front, hfront⟩ := kind_head kind
  obtain ⟨⟨back, hback, hnone⟩, -, -⟩ := tail_parts
  have htext : marker ++ kind.head ++ lit "ExecStart=" ++ body ++ tail
      = front ++ 0xa :: ((lit "ExecStart=" ++ body) ++ 0xa :: back) := by
    rw [hfront, hback]
    simp
  rw [hfront] at hhead
  unfold splitlines at hhead hnone ⊢
  rw [htext, splitlinesFrom_newline _ front, splitlinesFrom_newline back, starts_append,
    starts_append, hhead, hnone,
    List.nil_append, List.append_nil]

/-! ## What a command line is made of -/

/-- An escape is of ASCII digits and letters. -/
theorem mem_hexEscape {n : ℕ} {d : CodePoint} (hd : d ∈ hexEscape n) :
    0x30 ≤ d.val ∧ d.val < 0x80 := by
  have hdigit : ∀ k < 16, 0x30 ≤ (hexDigit k).val ∧ (hexDigit k).val < 0x80 := by decide
  have hmod : ∀ k, 0x30 ≤ (hexDigit (k % 0x10)).val ∧ (hexDigit (k % 0x10)).val < 0x80 :=
    fun k => hdigit _ (Nat.mod_lt _ (by omega))
  have hu : lit "\\u" = [0x5c, 0x75] := by decide
  rw [hexEscape, hu] at hd
  simp only [List.mem_append, List.mem_cons, List.not_mem_nil, or_false] at hd
  rcases hd with (rfl | rfl) | rfl | rfl | rfl | rfl
  · decide
  · decide
  · exact hmod _
  · exact hmod _
  · exact hmod _
  · exact hmod _

/-- The encoder writes no line end of its own, and no surrogate. -/
theorem mem_escapeLiteral {c d : CodePoint} (hd : d ∈ escapeLiteral c) :
    (0x20 ≤ d.val ∧ d.val < 0x80) ∨ d = c ∧ 0x20 ≤ c.val := by
  have hshort : ∀ t : Text, (t.all fun e => decide (0x20 ≤ e.val ∧ e.val < 0x80)) = true → d ∈ t →
      0x20 ≤ d.val ∧ d.val < 0x80 := fun t ht h => of_decide_eq_true (List.all_eq_true.mp ht d h)
  unfold escapeLiteral at hd
  split at hd
  · exact .inl (hshort _ (by decide) hd)
  · split at hd
    · exact .inl (hshort _ (by decide) hd)
    · split at hd
      · exact .inl (hshort _ (by decide) hd)
      · split at hd
        · exact .inl (hshort _ (by decide) hd)
        · split at hd
          · exact .inl (hshort _ (by decide) hd)
          · split at hd
            · exact .inl (hshort _ (by decide) hd)
            · split at hd
              · exact .inl (hshort _ (by decide) hd)
              · split at hd
                · have h := mem_hexEscape hd
                  exact .inl ⟨by omega, h.2⟩
                · next hc => exact .inr ⟨List.mem_singleton.mp hd, by omega⟩

/-- The characters of a command are blanks and those of its arguments. -/
theorem mem_joinArgs {d : CodePoint} : {rendered : List Text} → d ∈ joinArgs rendered →
    d = 0x20 ∨ ∃ t ∈ rendered, d ∈ t
  | [], h => by cases h
  | [t], h => .inr ⟨t, List.mem_cons_self, by simpa [joinArgs, List.intercalate] using h⟩
  | a :: b :: rest, h => by
      rw [joinArgs_cons, List.mem_append, List.mem_cons] at h
      rcases h with h | h | h
      · exact .inr ⟨a, List.mem_cons_self, h⟩
      · exact .inl h
      · rcases mem_joinArgs h with h | ⟨t, ht, h⟩
        · exact .inl h
        · exact .inr ⟨t, List.mem_cons_of_mem _ ht, h⟩

/-- The command of some arguments. -/
def body (args : List Text) : Text := joinArgs (args.map fun a => quoteLiteral (doubled a))

/-- A character of a quoted text is plain ASCII or stands in the text. -/
theorem mem_quoteLiteral {d : CodePoint} {t : Text} (hd : d ∈ quoteLiteral t) :
    (0x20 ≤ d.val ∧ d.val < 0x80) ∨ d ∈ t ∧ 0x20 ≤ d.val := by
  have hquote : lit "\"" = [0x22] := by decide
  rw [quoteLiteral, hquote] at hd
  simp only [List.mem_append, List.mem_singleton] at hd
  rcases hd with (rfl | hd) | rfl
  · exact .inl (by decide)
  · obtain ⟨c, hc, hdc⟩ := List.mem_flatMap.mp hd
    rcases mem_escapeLiteral hdc with h | ⟨rfl, h⟩
    · exact .inl h
    · exact .inr ⟨hc, h⟩
  · exact .inl (by decide)

/-- A character of a command is plain ASCII or stands in an argument. -/
theorem mem_body {d : CodePoint} {args : List Text} (hd : d ∈ body args) :
    (0x20 ≤ d.val ∧ d.val < 0x80) ∨ (∃ a ∈ args, d ∈ a) ∧ 0x20 ≤ d.val := by
  rcases mem_joinArgs hd with rfl | ⟨t, ht, hdt⟩
  · exact .inl (by decide)
  · obtain ⟨a, ha, rfl⟩ := List.mem_map.mp ht
    rcases mem_quoteLiteral hdt with h | ⟨h, hlow⟩
    · exact .inl h
    · exact .inr ⟨⟨a, ha, mem_doubled.mp h⟩, hlow⟩

/-- Above the control characters three characters end a line. -/
theorem isLineEnd_iff {d : CodePoint} (hd : 0x20 ≤ d.val) :
    isLineEnd d = true ↔ isUnicodeLineEnd d = true := by
  simp only [isLineEnd, isUnicodeLineEnd, Bool.or_eq_true, Bool.and_eq_true, decide_eq_true_eq,
    beq_iff_eq]
  omega

/-- A plain ASCII character or one that is no Unicode line separator ends no line. -/
theorem isLineEnd_eq_false {d : CodePoint}
    (h : (0x20 ≤ d.val ∧ d.val < 0x80) ∨ isUnicodeLineEnd d = false ∧ 0x20 ≤ d.val) :
    isLineEnd d = false := by
  by_contra hend
  rw [Bool.not_eq_false] at hend
  rcases h with h | ⟨h, hlow⟩
  · have := (isLineEnd_iff h.1).mp hend
    simp only [isUnicodeLineEnd, Bool.or_eq_true, beq_iff_eq] at this
    omega
  · rw [isLineEnd_iff hlow, h] at hend
    cases hend

/-- A Unicode line end is written as it is. -/
theorem escapeLiteral_lineEnd {b : CodePoint} (hb : isUnicodeLineEnd b = true) :
    escapeLiteral b = [b] := by
  simp only [isUnicodeLineEnd, Bool.or_eq_true, beq_iff_eq] at hb
  have hlow : 0x80 ≤ b.val := by omega
  unfold escapeLiteral
  rw [if_neg (by omega), if_neg (by omega), if_neg (by omega), if_neg (by omega), if_neg (by omega),
    if_neg (by omega),
    if_neg (by omega), if_neg (by omega)]

/-- The first element with a property. -/
theorem exists_first {α : Type} {p : α → Bool} {l : List α} (h : ∃ x ∈ l, p x = true) :
    ∃ front x back, l = front ++ x :: back ∧ p x = true ∧ ∀ y ∈ front, p y = false := by
  obtain ⟨x, hx⟩ := Option.isSome_iff_exists.mp (List.find?_isSome.mpr h)
  obtain ⟨hp, front, back, hl, hfront⟩ := List.find?_eq_some_iff_append.mp hx
  exact ⟨front, x, back, hl, hp, fun y hy => by simpa using hfront y hy⟩

/-- What stands before the arguments from some place on. -/
theorem joinArgs_split (b : Text) (more : List Text) : (front : List Text) →
    ∃ rest, joinArgs (front ++ b :: more) = front.flatMap (fun a => a ++ [0x20]) ++ (b ++ rest)
  | [] => by
      rcases more with _ | ⟨c, more⟩
      · exact ⟨[], by simp [joinArgs, List.intercalate]⟩
      · exact ⟨_, by rw [List.nil_append, joinArgs_cons]; rfl⟩
  | a :: front => by
      obtain ⟨rest, ih⟩ := joinArgs_split b more front
      refine ⟨rest, ?_⟩
      rcases hfront : front ++ b :: more with _ | ⟨c, tail⟩
      · simp at hfront
      · rw [List.cons_append, hfront, joinArgs_cons, ← hfront, ih]
        simp

/-- Arguments with doubled marks are read as the arguments. -/
theorem mapM_unitLiteral (args : List Text) : (args.map doubled).mapM unitLiteral = some args := by
  induction args with
  | nil => rfl
  | cons a args ih =>
    rw [List.map_cons, List.mapM_cons, unitLiteral_doubled, ih]
    rfl

/-- A traversal every element succeeds in succeeds. -/
theorem mapM_eq_some {α β : Type} {f : α → Option β} {g : α → β} :
    (l : List α) → (∀ a ∈ l, f a = some (g a)) →
    l.mapM f = some (l.map g)
  | [], _ => rfl
  | a :: l, h => by
      rw [List.mapM_cons, h a List.mem_cons_self, mapM_eq_some l fun b hb =>
        h b (List.mem_cons_of_mem _ hb)]
      rfl

section file

variable {args : List Text} (hargs : ∀ a ∈ args, encodable a = true ∧ (unitArg a).isSome = true)

include hargs

/-- The file of accepted arguments. -/
theorem unitFile_eq (kind : Kind) :
    unitFile kind args = some (marker ++ kind.head ++ lit "ExecStart=" ++ body args ++ tail) := by
  have hmap : args.mapM unitArg = some (args.map fun a => quoteLiteral (doubled a)) := by
    refine mapM_eq_some args fun a ha => ?_
    have hsome := (hargs a ha).2
    rw [unitArg] at hsome ⊢
    split at hsome
    · cases hsome
    · next hok => rw [if_neg hok]
  have henc : encodable (marker ++ kind.head ++ lit "ExecStart=" ++ body args ++ tail) = true := by
    have happend : ∀ s t : Text, encodable (s ++ t) = (encodable s && encodable t) :=
      fun s t => List.all_append
    have hbody : encodable (body args) = true := by
      rw [encodable, List.all_eq_true]
      intro d hd
      rcases mem_body hd with h | ⟨⟨a, ha, hda⟩, -⟩
      · simp only [isSurrogate, Bool.not_eq_true', Bool.and_eq_false_iff, decide_eq_false_iff_not]
        omega
      · exact List.all_eq_true.mp (hargs a ha).1 d hda
    have hexec : encodable (lit "ExecStart=") = true := by decide
    rw [happend, happend, happend, (kind_head kind).2.2.1, hexec, hbody, tail_parts.2.2]
    rfl
  rw [unitFile, unitText, hmap, Option.map_some, Option.bind_some, written, ← body, if_pos henc]

/-- What is read back of a file depends on its command line only. -/
theorem readBack_file (kind : Kind) : (unitFile kind args).bind readBack
    = (commandArguments (starts (splitlinesFrom (lit "ExecStart=" ++ body args ++ [0xa])
      [] false))).bind
        fun read => read.mapM unitLiteral := by
  have hfixed : ∀ t : Text, t.all (fun c => decide (c.val ≠ 0xd)) = true → ∀ c ∈ t, c.val ≠ 0xd :=
    fun t ht c hc => of_decide_eq_true (List.all_eq_true.mp ht c hc)
  have hreturn : ∀ c ∈ marker ++ kind.head ++ lit "ExecStart=" ++ body args ++ tail,
      c.val ≠ 0xd := by
    intro c hc
    rcases List.mem_append.mp hc with hc | hc
    · rcases List.mem_append.mp hc with hc | hc
      · rcases List.mem_append.mp hc with hc | hc
        · exact hfixed _ (kind_head kind).2.1 c hc
        · exact hfixed _ (by decide) c hc
      · rcases mem_body hc with h | ⟨-, h⟩
        · omega
        · omega
    · exact hfixed _ tail_parts.2.1 c hc
  rw [unitFile_eq hargs kind, Option.bind_some, readBack, unitArguments,
    universalNewlines_eq _ hreturn, starts_file]

/-- Without the three line ends the arguments come back. -/
theorem readBack_clean (kind : Kind) (hclean : ∀ a ∈ args, ∀ c ∈ a, isUnicodeLineEnd c = false) :
    (unitFile kind args).bind readBack = some args := by
  have hline : ∀ d ∈ lit "ExecStart=" ++ body args, isLineEnd d = false := by
    intro d hd
    rcases List.mem_append.mp hd with hd | hd
    · exact execStart_plain d hd
    · rcases mem_body hd with h | ⟨⟨a, ha, hda⟩, h⟩
      · exact isLineEnd_eq_false (.inl h)
      · exact isLineEnd_eq_false (.inr ⟨hclean a ha d hda, h⟩)
  have hend : isLineEnd (0xa : CodePoint) = true := by decide
  have hscan := scanArguments_join (args.map doubled) _ le_rfl
  rw [List.map_map] at hscan
  rw [readBack_file hargs kind, splitlinesFrom_plain hend _ _ _ hline, List.nil_append,
    starts_command]
  have hnil : starts (splitlinesFrom [] [] ((0xa : CodePoint).val == 0xd)) = [] := rfl
  rw [hnil, commandArguments, body]
  refine (congrArg (fun r => Option.bind r _) hscan).trans ?_
  exact mapM_unitLiteral args

/-- With one of them the command is cut, and refused. -/
theorem readBack_cut (kind : Kind) (hcut : ∃ a ∈ args, ∃ c ∈ a, isUnicodeLineEnd c = true) :
    (unitFile kind args).bind readBack = none := by
  -- The first argument with such a character, and the first such character in it.
  obtain ⟨good, bad, more, hsplit, hbad, hgood⟩ : ∃ good bad more, args = good ++ bad :: more
      ∧ (bad.any isUnicodeLineEnd) = true ∧ ∀ a ∈ good, (a.any isUnicodeLineEnd) = false := by
    obtain ⟨a, ha, c, hc, hend⟩ := hcut
    exact exists_first ⟨a, ha, List.any_eq_true.mpr ⟨c, hc, hend⟩⟩
  obtain ⟨p, b, q, hdoubled, hb, hp⟩ : ∃ p b q, doubled bad = p ++ b :: q
    ∧ isUnicodeLineEnd b = true
      ∧ ∀ c ∈ p, isUnicodeLineEnd c = false := by
    obtain ⟨c, hc, hend⟩ := List.any_eq_true.mp hbad
    exact exists_first ⟨c, mem_doubled.mpr hc, hend⟩
  have hend : isLineEnd b = true := by
    refine (isLineEnd_iff ?_).mpr hb
    simp only [isUnicodeLineEnd, Bool.or_eq_true, beq_iff_eq] at hb
    omega
  obtain ⟨front, hfront⟩ : ∃ front, (good.map doubled).flatMap (fun a => quoteLiteral a ++ [0x20])
      ++ 0x22 :: p.flatMap escapeLiteral = front := ⟨_, rfl⟩
  obtain ⟨back, hbody⟩ : ∃ back, body args = front ++ b :: back := by
    obtain ⟨rest, hrest⟩ := joinArgs_split (quoteLiteral (doubled bad))
      (more.map fun a => quoteLiteral (doubled a)) (good.map fun a => quoteLiteral (doubled a))
    refine ⟨q.flatMap escapeLiteral ++ 0x22 :: rest, ?_⟩
    rw [body, hsplit, List.map_append, List.map_cons, hrest, quoteLiteral_append,
      hdoubled, ← hfront,
      List.flatMap_append, List.flatMap_cons, escapeLiteral_lineEnd hb, List.flatMap_map,
      List.flatMap_map]
    simp
  have hplain : ∀ d ∈ lit "ExecStart=" ++ front, isLineEnd d = false := by
    intro d hd
    rcases List.mem_append.mp hd with hd | hd
    · exact execStart_plain d hd
    · rw [← hfront, List.mem_append, List.mem_cons] at hd
      rcases hd with hd | rfl | hd
      · obtain ⟨t, ht, hd⟩ := List.mem_flatMap.mp hd
        obtain ⟨a, ha, rfl⟩ := List.mem_map.mp ht
        rcases List.mem_append.mp hd with hd | hd
        · rcases mem_quoteLiteral hd with h | ⟨h, hlow⟩
          · exact isLineEnd_eq_false (.inl h)
          · refine isLineEnd_eq_false (.inr ⟨?_, hlow⟩)
            have hno := List.any_eq_false.mp (hgood a ha) d (mem_doubled.mp h)
            simpa using hno
        · rw [List.mem_singleton.mp hd]
          decide
      · decide
      · obtain ⟨c, hc, hdc⟩ := List.mem_flatMap.mp hd
        rcases mem_escapeLiteral hdc with h | ⟨rfl, h⟩
        · exact isLineEnd_eq_false (.inl h)
        · exact isLineEnd_eq_false (.inr ⟨hp d hc, h⟩)
  have htext : lit "ExecStart=" ++ body args ++ [0xa] = (lit "ExecStart=" ++ front) ++ b
      :: (back ++ [0xa]) := by
    rw [hbody]
    simp
  rw [readBack_file hargs kind, htext, splitlinesFrom_plain hend _ _ _ hplain, List.nil_append,
    starts_command]
  rcases starts (splitlinesFrom (back ++ [0xa]) [] (b.val == 0xd)) with _ | ⟨other, others⟩
  · rw [commandArguments, ← hfront, scanArguments_cut]
    rfl
  · rfl

end file

/-- **The arguments of a unit come back exactly when none of them contains a Unicode line
separator**: a next line character, a line separator or a paragraph separator. -/
theorem unit_arguments_round_trip (kind : Kind) {args : List Text}
    (hargs : ∀ a ∈ args, encodable a = true ∧ (unitArg a).isSome = true) :
    (unitFile kind args).bind readBack = some args ↔ ∀ a ∈ args, ∀ c ∈ a, isUnicodeLineEnd c
    = false := by
  constructor
  · intro h a ha c hc
    by_contra hend
    rw [Bool.not_eq_false] at hend
    rw [readBack_cut hargs kind ⟨a, ha, c, hc, hend⟩] at h
    cases h
  · exact readBack_clean hargs kind

/-- A path with a percent sign and a dollar sign comes back. -/
theorem unit_arguments_home :
    (unitFile (.notify false) [lit "/usr/bin/python3", lit "/home/me/50% $x"]).bind readBack
    = some [lit "/usr/bin/python3", lit "/home/me/50% $x"] := by
  refine (unit_arguments_round_trip (.notify false) ?_).mpr ?_
  · simp only [List.forall_mem_cons]
    exact ⟨by decide, by decide, fun a ha => by cases ha⟩
  · have hplain : ∀ t : Text, (t.all fun c => !isUnicodeLineEnd c) = true → ∀ c ∈ t,
        isUnicodeLineEnd c = false := by
      intro t ht c hc
      simpa using List.all_eq_true.mp ht c hc
    simp only [List.forall_mem_cons]
    exact ⟨hplain _ (by decide), hplain _ (by decide), fun a ha => by cases ha⟩

/-- A path with a line separator is rendered, and its unit is refused. -/
theorem unit_arguments_separator : ¬ ∀ (kind : Kind) (args : List Text), args ≠ [] →
    (∀ a ∈ args, encodable a = true ∧ (unitArg a).isSome = true) →
      (unitFile kind args).bind readBack = some args := by
  intro h
  have hargs : ∀ a ∈ [lit "/usr/bin/python3", lit "/home/a" ++ [0x2028]],
      encodable a = true ∧ (unitArg a).isSome = true := by
    simp only [List.forall_mem_cons]
    exact ⟨by decide, by decide, fun a ha => by cases ha⟩
  have hpath := h .bridge _ (by simp) hargs
  have hnone := readBack_cut hargs .bridge
    ⟨lit "/home/a" ++ [0x2028], by simp, 0x2028, by simp, by decide⟩
  rw [hnone] at hpath
  cases hpath

/-- Every unit of an installation is such a file. -/
theorem units_spec {o : Options} {files : List (Text × Text)} (h : units o = some files) :
    ∀ file ∈ files, ∃ kind, ∃ args ∈ [o.base, o.watcher, o.supervisor], unitText kind args
    = some file.2 := by
  unfold units at h
  obtain ⟨bridge, hbridge, h⟩ := Option.bind_eq_some_iff.mp h
  obtain ⟨notify, hnotify, h⟩ := Option.bind_eq_some_iff.mp h
  have hpair : ∀ a b : Text, ∀ file ∈ [(a, bridge), (b, notify)],
      ∃ kind, ∃ args ∈ [o.base, o.watcher, o.supervisor], unitText kind args = some file.2 := by
    intro a b
    simp only [List.forall_mem_cons]
    exact ⟨⟨.bridge, o.base, by simp, hbridge⟩, ⟨.notify o.legacy, o.watcher, by simp, hnotify⟩,
      fun f hf => by cases hf⟩
  split at h
  · split at h
    · obtain rfl := Option.some.inj h
      exact hpair _ _
    · split at h
      · obtain ⟨text, htext, rfl⟩ := Option.map_eq_some_iff.mp h
        simp only [List.forall_mem_cons]
        exact ⟨⟨.session, o.supervisor, by simp, htext⟩, fun f hf => by cases hf⟩
      · cases h
  · obtain rfl := Option.some.inj h
    exact hpair _ _

end PeerBridge.Install
