/-
The command line: flags that take a value, among them two ports, and the mode as
a word of its own.
-/
import Aquilo.LastWrite
import Aquilo.Onboard
import Aquilo.RustStr

namespace Aquilo

open LastWrite RustStr

/-- Why a text is no unsigned 16-bit integer. -/
inductive IntErrorKind where
  | empty
  | invalidDigit
  | posOverflow
deriving DecidableEq, Repr

def IntErrorKind.description : IntErrorKind → String
  | empty => "cannot parse integer from empty string"
  | invalidDigit => "invalid digit found in string"
  | posOverflow => "number too large to fit in target type"

/-- Digits read from the left, given up at the first that is none or too many. -/
def u16Digits (acc : ℕ) : List Char → Except IntErrorKind ℕ
  | [] => .ok acc
  | c :: rest =>
      if c.isDigit then
        let next := acc * 10 + (c.toNat - '0'.toNat)
        if next ≤ 65535 then u16Digits next rest else .error .posOverflow
      else .error .invalidDigit

/-- `str::parse::<u16>`. -/
def parseU16 (s : String) : Except IntErrorKind ℕ :=
  match s.toList with
  | [] => .error .empty
  | ['+'] => .error .invalidDigit
  | '+' :: digits => u16Digits 0 digits
  -- a minus is no digit of an unsigned number
  | digits => u16Digits 0 digits

/-- The parsed command line. -/
structure Args where
  mode : String
  configPath : String
  dataDir : String
  bindAddr : String
  listenPort : ℕ
  upstreamHost : String
  upstreamPort : ℕ
deriving DecidableEq, Repr

/-- The environment variables that give defaults. -/
structure Env where
  aquiloConfig : Option String
  upstreamHost : Option String

def defaultUpstreamHost : String := "57.128.198.238"

/-- The flags, each of which takes a value. -/
inductive Flag where
  | config
  | dataDir
  | bind
  | listenPort
  | upstreamHost
  | upstreamPort
deriving DecidableEq, Repr

def Flag.name : Flag → String
  | config => "--config"
  | dataDir => "--data-dir"
  | bind => "--bind"
  | listenPort => "--listen-port"
  | upstreamHost => "--upstream-host"
  | upstreamPort => "--upstream-port"

def Flag.ofArg (arg : String) : Option Flag :=
  if arg = "-c" ∨ arg = "--config" then some .config
  else if arg = "--data-dir" then some .dataDir
  else if arg = "--bind" then some .bind
  else if arg = "--listen-port" then some .listenPort
  else if arg = "--upstream-host" then some .upstreamHost
  else if arg = "--upstream-port" then some .upstreamPort
  else none

inductive ArgsError where
  | missing (flag : Flag)
  | port (kind : IntErrorKind)
  | unknownFlag (arg : String)
deriving DecidableEq, Repr

def ArgsError.message : ArgsError → String
  | missing flag => flag.name ++ " requires an argument"
  | port kind => kind.description
  | unknownFlag arg => "unknown flag '" ++ arg ++ "'"

def Flag.set (value : String) (a : Args) : Flag → Except ArgsError Args
  | config => .ok { a with configPath := value }
  | dataDir => .ok { a with dataDir := value }
  | bind => .ok { a with bindAddr := value }
  | listenPort =>
      match parseU16 value with
      | .ok n => .ok { a with listenPort := n }
      | .error kind => .error (.port kind)
  | upstreamHost => .ok { a with upstreamHost := value }
  | upstreamPort =>
      match parseU16 value with
      | .ok n => .ok { a with upstreamPort := n }
      | .error kind => .error (.port kind)

namespace Args

protected def default (env : Env) : Args where
  mode := "serve"
  configPath := env.aquiloConfig.getD "config.toml"
  dataDir := "data"
  bindAddr := "0.0.0.0"
  listenPort := 1883
  upstreamHost := env.upstreamHost.getD defaultUpstreamHost
  upstreamPort := 1883

/-- The words still to be read; a flag takes the next one, whatever it is. -/
def parseFrom (a : Args) : List String → Except ArgsError Args
  | [] => .ok a
  | arg :: rest =>
      match Flag.ofArg arg with
      | some flag =>
          match rest with
          | [] => .error (.missing flag)
          | value :: rest' =>
              match flag.set value a with
              | .ok a' => a'.parseFrom rest'
              | .error e => .error e
      | none =>
          if startsWith arg "-" then .error (.unknownFlag arg)
          else { a with mode := arg }.parseFrom rest

def parse (env : Env) (args : List String) : Except ArgsError Args :=
  (Args.default env).parseFrom args

def onboardOptions (a : Args) : OnboardOptions where
  bindAddr := a.bindAddr
  listenPort := a.listenPort
  outConfig := a.configPath
  dataDir := a.dataDir

end Args

structure LearnOptions where
  onboard : OnboardOptions
  upstreamHost : String
  upstreamPort : ℕ
deriving DecidableEq, Repr

def Args.learnOptions (a : Args) : LearnOptions where
  onboard := a.onboardOptions
  upstreamHost := a.upstreamHost
  upstreamPort := a.upstreamPort

/-- What `main` runs. -/
inductive Command where
  | serve (configPath : String)
  | learn (opts : LearnOptions)
  | observe (opts : OnboardOptions)
deriving DecidableEq, Repr

def Args.command (a : Args) : Except String Command :=
  if a.mode = "serve" then .ok (.serve a.configPath)
  else if a.mode = "learn" then .ok (.learn a.learnOptions)
  else if a.mode = "observe" then .ok (.observe a.onboardOptions)
  else .error
    ("unknown mode '" ++ a.mode ++ "'; expected serve, learn, or observe")

/-- What a word of the command line can set. -/
inductive Setting where
  | mode
  | flag (f : Flag)
deriving DecidableEq

/-- What is set: a text or a port. -/
abbrev Value := String ⊕ ℕ

/-- The arguments as a store of settings. -/
def Args.settings (a : Args) : Store Setting Value
  | .mode => some (.inl a.mode)
  | .flag .config => some (.inl a.configPath)
  | .flag .dataDir => some (.inl a.dataDir)
  | .flag .bind => some (.inl a.bindAddr)
  | .flag .listenPort => some (.inr a.listenPort)
  | .flag .upstreamHost => some (.inl a.upstreamHost)
  | .flag .upstreamPort => some (.inr a.upstreamPort)

theorem Args.settings_injective : Function.Injective Args.settings := by
  intro a b h
  have hmode := congrFun h .mode
  have hconfig := congrFun h (.flag .config)
  have hdata := congrFun h (.flag .dataDir)
  have hbind := congrFun h (.flag .bind)
  have hlisten := congrFun h (.flag .listenPort)
  have hhost := congrFun h (.flag .upstreamHost)
  have hport := congrFun h (.flag .upstreamPort)
  cases a
  cases b
  cases hmode
  cases hconfig
  cases hdata
  cases hbind
  cases hlisten
  cases hhost
  cases hport
  rfl

/-- A flag's value as it is read. -/
def Flag.read (value : String) : Flag → Except IntErrorKind Value
  | listenPort => (parseU16 value).map .inr
  | upstreamPort => (parseU16 value).map .inr
  | _ => .ok (.inl value)

/-- A part of a command line that is accepted: a flag with a value that reads, or
a mode. -/
inductive Item where
  | option (spelling value : String) (flag : Flag) (setting : Value)
      (hflag : Flag.ofArg spelling = some flag)
      (hread : flag.read value = .ok setting)
  | mode (word : String) (hflag : Flag.ofArg word = none)
      (hword : startsWith word "-" = false)

namespace Item

def words : Item → List String
  | option spelling value _ _ _ _ => [spelling, value]
  | mode word _ _ => [word]

def write : Item → Write Setting Value
  | option _ _ flag setting _ _ => ⟨.flag flag, some setting⟩
  | mode word _ _ => ⟨.mode, some (.inl word)⟩

end Item

/-- What ends a command line that is refused. -/
inductive Refused : List String → ArgsError → Prop where
  | missing {arg : String} {flag : Flag} (h : Flag.ofArg arg = some flag) :
      Refused [arg] (.missing flag)
  | port {arg value : String} {flag : Flag} {kind : IntErrorKind}
      (h : Flag.ofArg arg = some flag) (hread : flag.read value = .error kind)
      (rest : List String) : Refused (arg :: value :: rest) (.port kind)
  | unknownFlag {arg : String} (h : Flag.ofArg arg = none)
      (hdash : startsWith arg "-" = true) (rest : List String) :
      Refused (arg :: rest) (.unknownFlag arg)

namespace Args

/-- Settings that differ in one key at most. -/
theorem settings_eq_write {a a' : Args} {key : Setting} {setting : Value}
    (hself : a'.settings key = some setting)
    (hother : ∀ k, k ≠ key → a'.settings k = a.settings k) :
    a'.settings = a.settings.write ⟨key, some setting⟩ := by
  funext k
  by_cases hk : k = key
  · subst hk
    rw [hself, Store.write_self]
  · rw [Store.write_of_ne hk, hother k hk]

/-- A flag is set exactly when its value reads. -/
theorem set_cases (flag : Flag) (value : String) (a : Args) :
    (∃ setting a', flag.read value = .ok setting ∧ flag.set value a = .ok a' ∧
      a'.settings = a.settings.write ⟨.flag flag, some setting⟩) ∨
    ∃ kind, flag.read value = .error kind ∧ flag.set value a = .error (.port kind) := by
  cases flag with
  | config =>
      refine Or.inl ⟨.inl value, _, rfl, rfl, settings_eq_write rfl ?_⟩
      rintro (_ | f) hk
      · rfl
      · cases f <;> first | rfl | exact absurd rfl hk
  | dataDir =>
      refine Or.inl ⟨.inl value, _, rfl, rfl, settings_eq_write rfl ?_⟩
      rintro (_ | f) hk
      · rfl
      · cases f <;> first | rfl | exact absurd rfl hk
  | bind =>
      refine Or.inl ⟨.inl value, _, rfl, rfl, settings_eq_write rfl ?_⟩
      rintro (_ | f) hk
      · rfl
      · cases f <;> first | rfl | exact absurd rfl hk
  | upstreamHost =>
      refine Or.inl ⟨.inl value, _, rfl, rfl, settings_eq_write rfl ?_⟩
      rintro (_ | f) hk
      · rfl
      · cases f <;> first | rfl | exact absurd rfl hk
  | listenPort =>
      cases hport : parseU16 value with
      | error kind =>
          exact Or.inr ⟨kind, by simp [Flag.read, hport, Except.map],
            by simp [Flag.set, hport]⟩
      | ok n =>
          refine Or.inl ⟨.inr n, { a with listenPort := n },
            by simp [Flag.read, hport, Except.map], by simp [Flag.set, hport],
            settings_eq_write rfl ?_⟩
          rintro (_ | f) hk
          · rfl
          · cases f <;> first | rfl | exact absurd rfl hk
  | upstreamPort =>
      cases hport : parseU16 value with
      | error kind =>
          exact Or.inr ⟨kind, by simp [Flag.read, hport, Except.map],
            by simp [Flag.set, hport]⟩
      | ok n =>
          refine Or.inl ⟨.inr n, { a with upstreamPort := n },
            by simp [Flag.read, hport, Except.map], by simp [Flag.set, hport],
            settings_eq_write rfl ?_⟩
          rintro (_ | f) hk
          · rfl
          · cases f <;> first | rfl | exact absurd rfl hk

/-- An accepted part is read, and sets what it says. -/
theorem parseFrom_words (i : Item) (a : Args) :
    ∃ a' : Args, (∀ rest, a.parseFrom (i.words ++ rest) = a'.parseFrom rest) ∧
      a'.settings = a.settings.write i.write := by
  cases i with
  | mode word hflag hword =>
      refine ⟨{ a with mode := word }, fun rest => ?_, settings_eq_write rfl ?_⟩
      · show a.parseFrom (word :: rest) = _
        rw [parseFrom, hflag]
        simp [hword]
      · rintro (_ | f) hk
        · exact absurd rfl hk
        · cases f <;> rfl
  | option spelling value flag setting hflag hread =>
      rcases set_cases flag value a with ⟨setting', a', hread', hset, hsettings⟩ |
        ⟨kind, hkind, -⟩
      · rw [hread] at hread'
        cases hread'
        refine ⟨a', fun rest => ?_, hsettings⟩
        show a.parseFrom (spelling :: value :: rest) = _
        rw [parseFrom, hflag]
        simp [hset]
      · rw [hread] at hkind
        cases hkind

theorem parseFrom_flatMap_words (items : List Item) (a : Args) :
    ∃ a' : Args, (∀ rest, a.parseFrom (items.flatMap Item.words ++ rest) =
        a'.parseFrom rest) ∧
      a'.settings = a.settings.writeAll (items.map Item.write) := by
  induction items generalizing a with
  | nil => exact ⟨a, fun rest => rfl, rfl⟩
  | cons i rest ih =>
      obtain ⟨mid, hmid, hwrite⟩ := parseFrom_words i a
      obtain ⟨a', hrest, hwrites⟩ := ih mid
      refine ⟨a', fun later => ?_, ?_⟩
      · rw [List.flatMap_cons, List.append_assoc, hmid, hrest]
      · rw [List.map_cons, Store.writeAll_cons, ← hwrite, hwrites]

theorem parseFrom_refused {rest : List String} {e : ArgsError} (h : Refused rest e)
    (a : Args) : a.parseFrom rest = .error e := by
  cases h with
  | missing hflag =>
      rw [parseFrom, hflag]
  | @port arg value flag kind hflag hread rest =>
      rcases set_cases flag value a with ⟨setting, a', hok, -⟩ | ⟨kind', hkind, hset⟩
      · rw [hread] at hok
        cases hok
      · rw [hread] at hkind
        cases hkind
        rw [parseFrom, hflag]
        simp [hset]
  | unknownFlag hflag hdash =>
      rw [parseFrom, hflag]
      simp [hdash]

/-- Made of accepted parts, or refused after some. -/
inductive Splits : List String → Prop where
  | accepted (items : List Item) : Splits (items.flatMap Item.words)
  | refused (items : List Item) {rest : List String} {e : ArgsError}
      (h : Refused rest e) : Splits (items.flatMap Item.words ++ rest)

theorem Splits.cons (i : Item) {args : List String} (h : Splits args) :
    Splits (i.words ++ args) := by
  cases h with
  | accepted items => exact Splits.accepted (i :: items)
  | refused items h =>
      rw [← List.append_assoc]
      exact Splits.refused (i :: items) h

theorem splits : ∀ args : List String, Splits args
  | [] => .accepted []
  | arg :: rest => by
      cases hflag : Flag.ofArg arg with
      | none =>
          cases hdash : startsWith arg "-" with
          | false => exact (splits rest).cons (.mode arg hflag hdash)
          | true => exact .refused [] (.unknownFlag hflag hdash rest)
      | some flag =>
          match rest with
          | [] => exact .refused [] (.missing hflag)
          | value :: later =>
              cases hread : flag.read value with
              | error kind => exact .refused [] (.port hflag hread later)
              | ok setting =>
                  exact (splits later).cons (.option arg value flag setting hflag hread)

end Args

open Args in
/-- A command line is accepted exactly when it is made of flags with values that
read and of modes, and then each setting is the last one made, or its default; it
is refused exactly when such parts are followed by a flag without a value, a port
that is none, or an unknown flag, with that error.  With one and the same line
before the mode, serve reads the configuration that learn or observe writes. -/
theorem args_parse_iff (env : Env) (args : List String) :
    (∀ a, Args.parse env args = .ok a ↔
        ∃ items : List Item, args = items.flatMap Item.words ∧
          a.settings =
            (Args.default env).settings.writeAll (items.map Item.write)) ∧
      (∀ e, Args.parse env args = .error e ↔
        ∃ (items : List Item) (rest : List String),
          args = items.flatMap Item.words ++ rest ∧ Refused rest e) ∧
      ∀ a, Args.parse env args = .ok a →
        ∃ opts : LearnOptions,
          (Args.parse env (args ++ ["learn"])).map Args.command =
              .ok (.ok (.learn opts)) ∧
            (Args.parse env (args ++ ["observe"])).map Args.command =
              .ok (.ok (.observe opts.onboard)) ∧
            (Args.parse env (args ++ ["serve"])).map Args.command =
              .ok (.ok (.serve opts.onboard.outConfig)) := by
  have haccepted : ∀ items : List Item, ∃ a,
      Args.parse env (items.flatMap Item.words) = .ok a ∧
        a.settings = (Args.default env).settings.writeAll (items.map Item.write) := by
    intro items
    obtain ⟨a, hparse, hsettings⟩ := parseFrom_flatMap_words items (Args.default env)
    refine ⟨a, ?_, hsettings⟩
    have hnil := hparse []
    rwa [List.append_nil] at hnil
  have hrefused : ∀ (items : List Item) (rest : List String) (e : ArgsError),
      Refused rest e →
        Args.parse env (items.flatMap Item.words ++ rest) = .error e := by
    intro items rest e h
    obtain ⟨a, hparse, -⟩ := parseFrom_flatMap_words items (Args.default env)
    rw [Args.parse, hparse, parseFrom_refused h]
  have hok : ∀ a, Args.parse env args = .ok a ↔
      ∃ items : List Item, args = items.flatMap Item.words ∧
        a.settings =
          (Args.default env).settings.writeAll (items.map Item.write) := by
    intro a
    constructor
    · intro hparse
      cases splits args with
      | accepted items =>
          obtain ⟨a', hparse', hsettings⟩ := haccepted items
          rw [hparse] at hparse'
          cases hparse'
          exact ⟨items, rfl, hsettings⟩
      | refused items h =>
          rw [hrefused items _ _ h] at hparse
          cases hparse
    · rintro ⟨items, rfl, hsettings⟩
      obtain ⟨a', hparse', hsettings'⟩ := haccepted items
      rw [hparse', settings_injective (hsettings.trans hsettings'.symm)]
  refine ⟨hok, ?_, ?_⟩
  · intro e
    constructor
    · intro hparse
      cases splits args with
      | accepted items =>
          obtain ⟨a', hparse', -⟩ := haccepted items
          rw [hparse] at hparse'
          cases hparse'
      | @refused items rest e' h =>
          rw [hrefused items _ _ h] at hparse
          cases hparse
          exact ⟨items, rest, rfl, h⟩
    · rintro ⟨items, rest, rfl, h⟩
      exact hrefused items rest e h
  · intro a hparse
    obtain ⟨items, rfl, hsettings⟩ := (hok a).mp hparse
    obtain ⟨a', hrest, hsettings'⟩ := parseFrom_flatMap_words items (Args.default env)
    obtain rfl := settings_injective (hsettings.trans hsettings'.symm)
    -- a mode at the end changes nothing but the mode
    have hmode : ∀ word, Flag.ofArg word = none → startsWith word "-" = false →
        Args.parse env (items.flatMap Item.words ++ [word]) =
          .ok { a with mode := word } := by
      intro word hflag hword
      rw [Args.parse, hrest, parseFrom, hflag]
      simp [hword, parseFrom]
    refine ⟨a.learnOptions, ?_, ?_, ?_⟩
    · rw [hmode "learn" (by decide) (by decide)]
      rfl
    · rw [hmode "observe" (by decide) (by decide)]
      rfl
    · rw [hmode "serve" (by decide) (by decide)]
      rfl

/-- The last of two values counts, and a flag takes a word that looks like one. -/
example : Args.parse ⟨none, none⟩
    ["learn", "--listen-port", "+0080", "-c", "a.toml", "--config", "--bind"] =
    .ok { Args.default ⟨none, none⟩ with
      mode := "learn"
      configPath := "--bind"
      listenPort := 80 } := by
  decide

end Aquilo
