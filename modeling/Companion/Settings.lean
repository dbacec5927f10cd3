import Companion.Config
import Mathlib.Data.List.DropRight

/-!
# The configuration file and its check

The sections of the configuration that `Config::validate` reads, and the check
itself, which runs before anything else does.  How a URL is taken apart is the
business of the `url` crate and a parameter here; the addresses are those of the
standard library.

## Main definitions

* `IpAddr.parse`, `isPrivateHost` — which hosts count as private.
* `Settings` — the sections, with their defaults.
* `Settings.validate` — the check.
-/

set_option autoImplicit false

namespace Companion

/-! ## Addresses -/

inductive IpAddr
  | v4 (bits : BitVec 32)
  | v6 (bits : BitVec 128)
  deriving DecidableEq, Repr

/-- `char::to_digit`. -/
def toDigit (radix : ℕ) (c : Char) : Option ℕ :=
  let d :=
    if '0' ≤ c ∧ c ≤ '9' then some (c.toNat - '0'.toNat)
    else if 'a' ≤ c ∧ c ≤ 'f' then some (c.toNat - 'a'.toNat + 10)
    else if 'A' ≤ c ∧ c ≤ 'F' then some (c.toNat - 'A'.toNat + 10)
    else none
  d.filter (· < radix)

namespace IpAddr

/-- A reader takes something off the front of a text. -/
abbrev Reader (α : Type) := List Char → Option (α × List Char)

def readChar (c : Char) : Reader Unit
  | c' :: cs => if c' = c then some ((), cs) else none
  | [] => none

/-- A number of at most `maxDigits` digits, below `bound`. -/
def readNumber (radix maxDigits bound : ℕ) (allowZeroPrefix : Bool) : Reader ℕ := fun cs =>
  let digits := cs.takeWhile fun c => (toDigit radix c).isSome
  let value := digits.foldl (fun n c => n * radix + (toDigit radix c).getD 0) 0
  if digits = [] ∨ maxDigits < digits.length then none
  else if !allowZeroPrefix && digits.head? == some '0' && 1 < digits.length then none
  else if bound ≤ value then none
  else some (value, cs.drop digits.length)

/-- What comes in place `i` of a list with separators. -/
def readSeparator {α : Type} (sep : Char) (i : ℕ) (inner : Reader α) : Reader α := fun cs =>
  if i = 0 then inner cs
  else (readChar sep cs).bind fun (_, rest) => inner rest

/-- The octets from place `i` on. -/
def readOctets (i : ℕ) : ℕ → Reader (List ℕ)
  | 0, cs => some ([], cs)
  | n + 1, cs => do
      let (octet, rest) ← readSeparator '.' i (readNumber 10 3 256 false) cs
      let (octets, rest) ← readOctets (i + 1) n rest
      return (octet :: octets, rest)

def readIpv4 : Reader (List ℕ) := readOctets 0 4

/-- The groups from place `i` on, at most `n` of them, and whether the last two were
written as an IPv4 address. -/
def readGroups (i : ℕ) : ℕ → List Char → List ℕ × Bool × List Char
  | 0, cs => ([], false, cs)
  | n + 1, cs =>
      -- an embedded IPv4 address takes two groups
      match if n = 0 then none else readSeparator ':' i readIpv4 cs with
      | some ([a, b, c, d], rest) => ([a * 256 + b, c * 256 + d], true, rest)
      | _ =>
          match readSeparator ':' i (readNumber 16 4 65536 true) cs with
          | some (group, rest) =>
              let (groups, embedded, rest) := readGroups (i + 1) n rest
              (group :: groups, embedded, rest)
          | none => ([], false, cs)

def readIpv6 : Reader (List ℕ) := fun cs =>
  let (head, embedded, rest) := readGroups 0 8 cs
  if head.length = 8 then some (head, rest)
  else if embedded then none
  else do
    let (_, rest) ← readChar ':' rest
    let (_, rest) ← readChar ':' rest
    let (tail, _, rest) := readGroups 0 (8 - (head.length + 1)) rest
    return (head ++ List.replicate (8 - head.length - tail.length) 0 ++ tail, rest)

/-- The number with the given digits. -/
def assemble (base : ℕ) (digits : List ℕ) : ℕ :=
  digits.foldl (fun n d => n * base + d) 0

/-- `str::parse::<IpAddr>`. -/
def parse (host : List Char) : Option IpAddr :=
  match readIpv4 host with
  | some (octets, rest) =>
      if rest = [] then some (.v4 (BitVec.ofNat 32 (assemble 256 octets))) else none
  | none =>
      match readIpv6 host with
      | some (groups, []) => some (.v6 (BitVec.ofNat 128 (assemble 65536 groups)))
      | _ => none

def isLoopbackV4 (ip : BitVec 32) : Bool := ip >>> 24 == 127#32

/-- `10/8`, `172.16/12` and `192.168/16`. -/
def isPrivateV4 (ip : BitVec 32) : Bool :=
  ip >>> 24 == 10#32 || ip >>> 20 == 0xac1#32 || ip >>> 16 == 0xc0a8#32

/-- The address behind `::ffff:0:0/96`. -/
def toIpv4Mapped (ip : BitVec 128) : Option (BitVec 32) :=
  if ip >>> 32 == 0xffff#128 then some (ip.setWidth 32) else none

end IpAddr

/-- The address, or else the name, of `host` is that of a private network. -/
def isPrivateHost (host : List Char) : Bool :=
  let host := (host.dropWhile (· == '[')).rdropWhile (· == ']')
  match IpAddr.parse host with
  | some (.v4 ip) => IpAddr.isLoopbackV4 ip || IpAddr.isPrivateV4 ip
  | some (.v6 ip) =>
      ip == 1#128
        || ip >>> 121 == 0x7e#128
        || ip >>> 118 == 0x3fa#128
        || (IpAddr.toIpv4Mapped ip).any fun v4 => IpAddr.isLoopbackV4 v4 || IpAddr.isPrivateV4 v4
  | none => host == "localhost".toList || !host.contains '.'

example : ["[::1]", "[fd00::1]", "[fe80::1]", "[::ffff:10.0.0.1]", "10.0.0.1", "172.16.0.1",
    "172.32.0.1", "192.168.1.1", "0.0.0.0", "localhost", "rln", "rln.example.com"].map
      (fun host => isPrivateHost host.toList) =
    [true, true, true, true, true, true, false, true, false, true, true, false] := by decide

/-! ## Sections -/

namespace Config

structure Service where
  listenPort : UInt16 := 3101
  deriving DecidableEq, Repr

structure RlnSection extends Rln where
  network := none
  baseUrl : String := "http://127.0.0.1:3001"
  allowPublicUrl : Bool := false
  deriving DecidableEq, Repr

structure EngineSection extends Engine where
  refreshIntervalSecs : UInt64 := 10
  reapIntervalSecs : UInt64 := 300
  paymentsPollIntervalSecs : UInt64 := 3
  reconcileBackoffSecs : UInt64 := 5
  deriving DecidableEq, Repr

structure SyncSection extends Sync where
  fullIntervalSecs : UInt64 := 600
  deriving DecidableEq, Repr

structure WebhookSection extends Webhook where
  url : String := ""
  secret : String := ""
  dispatchIntervalSecs : UInt64 := 2
  deriving DecidableEq, Repr

end Config

/-- A configuration file. -/
structure Settings where
  service : Config.Service := {}
  rln : Config.RlnSection := {}
  engine : Config.EngineSection := {}
  sync : Config.SyncSection := {}
  webhook : Config.WebhookSection := {}
  deriving DecidableEq, Repr

/-- What of it the tasks read. -/
def Settings.config (s : Settings) : Config :=
  ⟨s.rln.toRln, s.engine.toEngine, s.sync.toSync, s.webhook.toWebhook⟩

/-! ## The check -/

/-- The errors of the check, each with the URL or the field it is about. -/
inductive ConfigError
  | missingWebhook
  | invalidWebhookUrl (url : String)
  | publicRlnUrl (url : String)
  | invalidRlnUrl (url : String)
  | invalidPort
  | zeroInterval (field : String)
  deriving DecidableEq, Repr

def ConfigError.message : ConfigError → String
  | .missingWebhook => "webhook url and secret must be set"
  | .invalidWebhookUrl url => "invalid webhook.url: " ++ url
  | .publicRlnUrl url =>
      "rln.base_url " ++ url ++ " is not private; set rln.allow_public_url to override"
  | .invalidRlnUrl url => "invalid rln.base_url: " ++ url
  | .invalidPort => "service.listen_port must not be 0"
  | .zeroInterval field => field ++ " must not be 0"

/-- What is read of a URL. -/
structure Url where
  scheme : String
  hostStr : Option String
  deriving DecidableEq, Repr

/-- A URL that parses, with a scheme the companion speaks. -/
def httpUrl (parse : String → Except String Url) (invalid : String → ConfigError) (url : String) :
    Except ConfigError Url :=
  match parse url with
  | .error e => .error (invalid (url ++ ": " ++ e))
  | .ok parsed =>
      if parsed.scheme = "http" ∨ parsed.scheme = "https" then .ok parsed
      else .error (invalid url)

/-- The settings that are waited for, by name. -/
def Settings.intervals (s : Settings) : List (String × UInt64) :=
  [("engine.refresh_interval_secs", s.engine.refreshIntervalSecs),
    ("engine.reap_interval_secs", s.engine.reapIntervalSecs),
    ("engine.payments_poll_interval_secs", s.engine.paymentsPollIntervalSecs),
    ("engine.reconcile_backoff_secs", s.engine.reconcileBackoffSecs),
    ("sync.full_interval_secs", s.sync.fullIntervalSecs),
    ("webhook.dispatch_interval_secs", s.webhook.dispatchIntervalSecs)]

def checkIntervals : List (String × UInt64) → Except ConfigError Unit
  | [] => .ok ()
  | (name, value) :: rest =>
      if value = 0 then .error (.zeroInterval name) else checkIntervals rest

/-- The check ends with `e` unless `p` holds. -/
def ensure (p : Prop) [Decidable p] (e : ConfigError) : Except ConfigError Unit :=
  if p then .ok () else .error e

/-- The host of the node, which is private unless the file allows any. -/
def checkHost (rln : Config.RlnSection) (url : Url) : Except ConfigError Unit :=
  match url.hostStr with
  | none => .error (.invalidRlnUrl rln.baseUrl)
  | some host =>
      ensure (rln.allowPublicUrl || isPrivateHost host.toList) (.publicRlnUrl rln.baseUrl)

/-- `Config::validate`. -/
def Settings.validate (parse : String → Except String Url) (s : Settings) :
    Except ConfigError Unit := do
  ensure (s.webhook.url ≠ "" ∧ s.webhook.secret ≠ "") .missingWebhook
  let _ ← httpUrl parse .invalidWebhookUrl s.webhook.url
  ensure (s.service.listenPort ≠ 0) .invalidPort
  checkIntervals s.intervals
  let url ← httpUrl parse .invalidRlnUrl s.rln.baseUrl
  checkHost s.rln url

theorem ensure_ok {p : Prop} [Decidable p] {e : ConfigError} {u : Unit} :
    ensure p e = .ok u ↔ p := by
  by_cases h : p <;> simp [ensure, h]

theorem bind_ok {ε α β : Type} {x : Except ε α} {f : α → Except ε β} {b : β} :
    (x >>= f) = .ok b ↔ ∃ a, x = .ok a ∧ f a = .ok b := by
  cases x <;> simp [bind, Except.bind]

theorem checkIntervals_ok {l : List (String × UInt64)} {u : Unit} :
    checkIntervals l = .ok u ↔ ∀ i ∈ l, i.2 ≠ 0 := by
  induction l with
  | nil => simp [checkIntervals]
  | cons i l ih =>
    obtain ⟨name, value⟩ := i
    by_cases h : value = 0 <;> simp [checkIntervals, h, ih]

theorem httpUrl_ok {parse : String → Except String Url} {invalid : String → ConfigError}
    {url : String} {parsed : Url} :
    httpUrl parse invalid url = .ok parsed ↔
      parse url = .ok parsed ∧ (parsed.scheme = "http" ∨ parsed.scheme = "https") := by
  rw [httpUrl]
  cases parse url with
  | error e => simp
  | ok p =>
    by_cases h : p.scheme = "http" ∨ p.scheme = "https"
    · simp only [if_pos h, Except.ok.injEq]
      constructor
      · rintro rfl
        exact ⟨rfl, h⟩
      · intro hp
        exact hp.1
    · simp only [if_neg h, Except.ok.injEq, reduceCtorEq, false_iff, not_and]
      rintro rfl
      exact h

theorem checkHost_ok {rln : Config.RlnSection} {url : Url} {u : Unit} :
    checkHost rln url = .ok u ↔ ∃ host, url.hostStr = some host ∧
      (rln.allowPublicUrl || isPrivateHost host.toList) = true := by
  rw [checkHost]
  cases url.hostStr <;> simp [ensure_ok]

/-- What the check accepts: a webhook with a secret, no zero port or interval, and a
node on a private host unless the file says otherwise. -/
theorem Settings.validate_ok {parse : String → Except String Url} {s : Settings} :
    s.validate parse = .ok () ↔
      (s.webhook.url ≠ "" ∧ s.webhook.secret ≠ "") ∧
      (∃ hook, parse s.webhook.url = .ok hook ∧ (hook.scheme = "http" ∨ hook.scheme = "https")) ∧
      s.service.listenPort ≠ 0 ∧ (∀ i ∈ s.intervals, i.2 ≠ 0) ∧
      ∃ url, (parse s.rln.baseUrl = .ok url ∧ (url.scheme = "http" ∨ url.scheme = "https")) ∧
        ∃ host, url.hostStr = some host ∧
          (s.rln.allowPublicUrl || isPrivateHost host.toList) = true := by
  simp only [Settings.validate, bind_ok, checkHost_ok, httpUrl_ok, ensure_ok, checkIntervals_ok]
  constructor
  · rintro ⟨_, hset, _, hhook, _, hport, _, hint, url, hurl, hhost⟩
    exact ⟨hset, ⟨_, hhook⟩, hport, hint, url, hurl, hhost⟩
  · rintro ⟨hset, ⟨_, hhook⟩, hport, hint, url, hurl, hhost⟩
    exact ⟨(), hset, _, hhook, (), hport, (), hint, url, hurl, hhost⟩

/-- The check does not look at the number of attempts. -/
theorem Settings.validate_maxAttempts (parse : String → Except String Url) (s : Settings)
    (n : UInt32) : ({ s with webhook.maxAttempts := n } : Settings).validate parse =
      s.validate parse := rfl

end Companion
