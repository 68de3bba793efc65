import DatagramRpc.Client.Call
import DatagramRpc.Config.Settings
import DatagramRpc.Double.Numeral
import DatagramRpc.Message.Envelope

/-!
# The command line

Two commands: one serves, and one sends a request and waits for the reply. Options have two dashes
and a value, and stand anywhere among the other words.
-/

namespace DatagramRpc

/-- What replaces the settings of the same meaning. -/
structure ServeOptions where
  semantics : Option Semantics
  listen : Option String
  deriving DecidableEq, Repr

structure CallOptions where
  server : Address
  operation : Operation
  payload : String
  client : ClientOptions
  /-- How long to print notifications after the reply. -/
  listening : Span
  deriving DecidableEq, Repr

inductive Command where
  | serve (options : ServeOptions)
  | call (options : CallOptions)
  deriving DecidableEq, Repr

/-- The words of a command: its options with their values, and the others. -/
structure Arguments where
  options : List (String × String)
  plain : List String
  deriving DecidableEq, Repr

namespace Arguments

/-- Sorts words; only the options in `known` may be there. -/
def ofWords (known : List String) : List String → Except String Arguments
  | [] => .ok ⟨[], []⟩
  | word :: rest =>
    if word.startsWith "--" then
      if known.contains word then
        match rest with
        | value :: rest => do
          let args ← ofWords known rest
          return { args with options := (word, value) :: args.options }
        | [] => .error ("a value is required for " ++ word)
      else .error ("unexpected argument " ++ word)
    else do
      let args ← ofWords known rest
      return { args with plain := word :: args.plain }

/-- The value of an option, read by `read`. -/
def get? {α : Type} (args : Arguments) (option : String) (read : String → Option α) :
    Except String (Option α) :=
  match args.options.lookup option with
  | none => .ok none
  | some text =>
    match read text with
    | some a => .ok (some a)
    | none => .error ("invalid value " ++ text ++ " for " ++ option)

/-- The options of an accepted command are known ones. -/
theorem known_of_ofWords {known words : List String} {args : Arguments}
    (h : ofWords known words = .ok args) : ∀ o ∈ args.options, o.1 ∈ known := by
  fun_induction ofWords known words generalizing args with
  | case1 =>
    cases h
    simp
  | case2 word _ hk value rest ih =>
    match hr : ofWords known rest with
    | .error e => simp [hr, bind, Except.bind] at h
    | .ok tail =>
      simp only [hr, bind, Except.bind, pure, Except.pure, Except.ok.injEq] at h
      subst h
      intro o ho
      cases List.mem_cons.1 ho with
      | inl ho => simpa [ho] using hk
      | inr ho => exact ih hr o ho
  | case3 => cases h
  | case4 => cases h
  | case5 word rest _ ih =>
    match hr : ofWords known rest with
    | .error e => simp [hr, bind, Except.bind] at h
    | .ok tail =>
      simp only [hr, bind, Except.bind, pure, Except.pure, Except.ok.injEq] at h
      subst h
      intro o ho
      exact ih hr o ho

end Arguments

namespace Command

def defaultServer : Address := ⟨Network.loopback, 6789⟩

def serveOf (words : List String) : Except String Command := do
  let args ← Arguments.ofWords ["--semantics", "--listen"] words
  if let word :: _ := args.plain then throw ("unexpected argument " ++ word)
  return .serve ⟨← args.get? "--semantics" Semantics.ofName, ← args.get? "--listen" some⟩

def callOf (words : List String) : Except String Command := do
  let args ← Arguments.ofWords ["--server", "--op", "--timeout-ms", "--attempts",
    "--listen-secs"] words
  let number (bits : Nat) := Text.readUnsigned (Text.greatestUnsigned bits)
  let operation ← args.get? "--op" fun s => (Operation.ofName s).toOption
  let d := ClientOptions.default
  let client : ClientOptions := { d with
    timeout := ((← args.get? "--timeout-ms" (number 64)).map Span.ofMillis).getD d.timeout
    attempts := max 1 ((← args.get? "--attempts" (number 32)).getD d.attempts) }
  let server := (← args.get? "--server" Address.ofText).getD defaultServer
  let listening := Span.ofSeconds ((← args.get? "--listen-secs" (number 64)).getD 0)
  match operation, args.plain with
  | none, _ => throw "--op is required"
  | some operation, [] => return .call ⟨server, operation, "", client, listening⟩
  | some operation, [payload] => return .call ⟨server, operation, payload, client, listening⟩
  | _, _ :: word :: _ => throw ("unexpected argument " ++ word)

/-- The command of a command line. -/
def ofWords : List String → Except String Command
  | "serve" :: words => serveOf words
  | "call" :: words => callOf words
  | word :: _ => .error ("unknown command " ++ word)
  | [] => .error "a command is required: serve or call"

end Command

end DatagramRpc
