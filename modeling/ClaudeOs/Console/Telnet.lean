import ClaudeOs.Console

/-!
# The telnet console's input: the bytes for the terminal among the client's commands

`console/telnet.rs`.  The client's stream is data, in which an IAC is doubled, with commands, option
negotiations and subnegotiations anywhere between its bytes.

* `Input.feed`, `exchange`  one byte of the client, and all those of one receive;
* `Control`, `Stream`  what a client sends: runs of data with controls between them;
* `reduce`  a run with its CR sequences reduced;
* `exchange_stream`  the terminal gets the runs, each reduced, however they are cut.
-/

namespace ClaudeOs.Console.Telnet
open Fs List

def IAC : Byte := 255
def DONT : Byte := 254
def DO : Byte := 253
def WONT : Byte := 252
def WILL : Byte := 251
def SB : Byte := 250
def NOP : Byte := 241
def SE : Byte := 240
def CR : Byte := 13
def LF : Byte := 10

/-- where the client's byte stream stands -/
inductive Input where
  | Data | Cr | Command | Negotiation | Subnegotiation | SubnegotiationCommand
  deriving DecidableEq, Repr

namespace Input

def feedData (byte : Byte) : Input × Option Byte :=
  if byte = IAC then (Command, none)
  else if byte = CR then (Cr, some byte)
  else (Data, some byte)

/-- one byte of the client, handed back if it is one for the terminal -/
def feed : Input → Byte → Input × Option Byte
  | Data, byte => feedData byte
  | Cr, byte => if byte = 0 ∨ byte = LF then (Data, none) else feedData byte
  | Command, byte =>
    if byte = IAC then (Data, some IAC)
    else if byte ∈ [WILL, WONT, DO, DONT] then (Negotiation, none)
    else if byte = SB then (Subnegotiation, none)
    else (Data, none)
  | Negotiation, _ => (Data, none)
  | Subnegotiation, byte => (if byte = IAC then SubnegotiationCommand else Subnegotiation, none)
  | SubnegotiationCommand, byte => (if byte = SE then Data else Subnegotiation, none)

end Input

/-- where the stream stands, and what the terminal got so far, after one more byte -/
def push (s : Input × List Byte) (byte : Byte) : Input × List Byte :=
  ((s.1.feed byte).1, s.2 ++ (s.1.feed byte).2.toList)

/-- the loop of `exchange` over the bytes of one receive -/
def exchange (s : Input × List Byte) (bytes : List Byte) : Input × List Byte := bytes.foldl push s

/-! ## what a client sends -/

def escape : List Byte → List Byte
  | [] => []
  | b :: run => if b = IAC then IAC :: IAC :: escape run else b :: escape run

inductive Control where
  | command (byte : Byte) (h : byte ∉ [IAC, WILL, WONT, DO, DONT, SB])
  | negotiation (verb : Byte) (h : verb ∈ [WILL, WONT, DO, DONT]) (option : Byte)
  | subnegotiation (content : List Byte)

def Control.bytes : Control → List Byte
  | command byte _ => [IAC, byte]
  | negotiation verb _ option => [IAC, verb, option]
  | subnegotiation content => IAC :: SB :: escape content ++ [IAC, SE]

/-- a run of data, and then controls, each with the run that follows it -/
structure Stream where
  first : List Byte
  rest : List (Control × List Byte)

def Stream.bytes (s : Stream) : List Byte :=
  escape s.first ++ s.rest.flatMap fun next => next.1.bytes ++ escape next.2

def Stream.runs (s : Stream) : List (List Byte) := s.first :: s.rest.map Prod.snd

/-- a NUL or LF right after a CR is dropped -/
def reduce : List Byte → List Byte
  | [] => []
  | [b] => [b]
  | b :: c :: rest => if b = CR ∧ (c = 0 ∨ c = LF) then b :: reduce rest else b :: reduce (c :: rest)

/-! ## the terminal gets the data -/

variable {input : Input} {out bytes : List Byte} {byte b c : Byte}

lemma exchange_silent (next : Input) (h : input.feed byte = (next, none)) :
    exchange (input, out) (byte :: bytes) = exchange (next, out) bytes := by
  rw [exchange, foldl_cons, push, h, Option.toList_none, append_nil]
  rfl

lemma exchange_handed (next : Input) (h : input.feed byte = (next, some b)) :
    exchange (input, out) (byte :: bytes) = exchange (next, out ++ [b]) bytes := by
  rw [exchange, foldl_cons, push, h, Option.toList_some]
  rfl

lemma exchange_inside (content : List Byte) :
    exchange (.Subnegotiation, out) (escape content ++ [IAC, SE]) = (.Data, out) := by
  induction content with
  | nil => exact (exchange_silent .SubnegotiationCommand rfl).trans (exchange_silent .Data rfl)
  | cons b content ih =>
    rw [escape]
    split
    · rw [cons_append, exchange_silent .SubnegotiationCommand rfl, cons_append,
        exchange_silent .Subnegotiation rfl, ih]
    · next hb =>
      rw [cons_append, exchange_silent .Subnegotiation (by rw [Input.feed, if_neg hb]), ih]

lemma exchange_control (h : input = .Data ∨ input = .Cr) (k : Control) :
    exchange (input, out) k.bytes = (.Data, out) := by
  have hIac : input.feed IAC = (.Command, none) := by
    rcases h with rfl | rfl <;> rfl
  cases k with
  | command byte hb =>
    simp only [mem_cons, not_mem_nil, or_false, not_or] at hb
    rw [Control.bytes, exchange_silent _ hIac, exchange_silent .Data (by simp [Input.feed, hb])]
    rfl
  | negotiation verb hv option =>
    have hne : verb ≠ IAC := by
      rintro rfl
      exact absurd hv (by decide)
    have hfeed : Input.Command.feed verb = (.Negotiation, none) := by
      rw [Input.feed, if_neg hne, if_pos hv]
    rw [Control.bytes, exchange_silent _ hIac, exchange_silent _ hfeed, exchange_silent .Data rfl]
    rfl
  | subnegotiation content =>
    show exchange _ (IAC :: SB :: (escape content ++ [IAC, SE])) = _
    rw [exchange_silent _ hIac, exchange_silent .Subnegotiation rfl, exchange_inside]

lemma exchange_data (run : List Byte) : exchange (.Data, out) (escape (b :: run)) =
    exchange (if b = CR then .Cr else .Data, out ++ [b]) (escape run) := by
  rw [escape]
  split
  · next h =>
    subst h
    rw [exchange_silent .Command rfl, exchange_handed .Data rfl]
    rfl
  · next h =>
    refine exchange_handed _ ?_
    rw [Input.feed, Input.feedData, if_neg h]
    split <;> rfl

lemma exchange_after_cr (h : ¬(c = 0 ∨ c = LF)) (run : List Byte) :
    exchange (.Cr, out) (escape (c :: run)) = exchange (.Data, out) (escape (c :: run)) := by
  have hfeed : Input.Cr.feed c = Input.Data.feed c := if_neg h
  rw [escape]
  split
  · rfl
  · rw [exchange, exchange, foldl_cons, foldl_cons, push, push, hfeed]

lemma exchange_run (out run : List Byte) : ∃ input : Input, (input = .Data ∨ input = .Cr) ∧
    exchange (.Data, out) (escape run) = (input, out ++ reduce run) := by
  fun_induction reduce run generalizing out with
  | case1 => exact ⟨.Data, .inl rfl, by rw [append_nil]; rfl⟩
  | case2 b =>
    rw [exchange_data]
    split
    · exact ⟨.Cr, .inr rfl, rfl⟩
    · exact ⟨.Data, .inl rfl, rfl⟩
  | case3 b c rest h ih =>
    obtain ⟨rfl, hc⟩ := h
    obtain ⟨input, hinput, e⟩ := ih (out ++ [CR])
    have hne : c ≠ IAC := by
      rintro rfl
      exact absurd hc (by decide)
    have hfeed : Input.Cr.feed c = (.Data, none) := if_pos hc
    rw [exchange_data, if_pos rfl, escape, if_neg hne, exchange_silent _ hfeed, e, append_assoc]
    exact ⟨input, hinput, rfl⟩
  | case4 b c rest h ih =>
    obtain ⟨input, hinput, e⟩ := ih (out ++ [b])
    rw [append_assoc] at e
    refine ⟨input, hinput, Eq.trans ?_ e⟩
    rw [exchange_data]
    split
    · next hb => exact exchange_after_cr (fun hc => h ⟨hb, hc⟩) rest
    · rfl

lemma exchange_rest (h : input = .Data ∨ input = .Cr) (rest : List (Control × List Byte)) :
    (exchange (input, out) (rest.flatMap fun next => next.1.bytes ++ escape next.2)).2 =
      out ++ (rest.map Prod.snd).flatMap reduce := by
  induction rest generalizing input out with
  | nil => exact (append_nil out).symm
  | cons next rest ih =>
    obtain ⟨input', hinput, e⟩ := exchange_run out next.2
    rw [flatMap_cons, append_assoc, exchange, foldl_append, foldl_append]
    show (exchange (exchange (exchange _ _) _) _).2 = _
    rw [exchange_control h, e, ih hinput, append_assoc]
    rfl

/-- **what the client typed reaches the terminal**: the data of any stream, cut into receives
anywhere, with the NUL or LF right after a CR dropped, and nothing of the controls between -/
theorem exchange_stream (s : Stream) (parts : List (List Byte)) (h : parts.flatten = s.bytes) :
    (parts.foldl exchange (.Data, [])).2 = s.runs.flatMap reduce := by
  have hcut : parts.foldl exchange (.Data, []) = exchange (.Data, []) parts.flatten :=
    foldl_flatten.symm
  obtain ⟨input, hinput, e⟩ := exchange_run [] s.first
  rw [hcut, h, Stream.bytes, exchange, foldl_append]
  show (exchange (exchange _ _) _).2 = _
  rw [e, exchange_rest hinput]
  rfl

def interrupted : Stream := ⟨[CR], [(.command NOP (by decide), [LF])]⟩

/-- a command that arrives in two parts is cut out -/
theorem exchange_stream_interrupted :
    ([[CR, IAC], [NOP, LF]].foldl exchange (.Data, [])).2 = interrupted.runs.flatMap reduce :=
  exchange_stream interrupted [[CR, IAC], [NOP, LF]] (by decide)

/-- **a command between a CR and its LF** lets the LF through -/
theorem interrupted_not_reduced :
    (exchange (.Data, []) interrupted.bytes).2 ≠ reduce interrupted.runs.flatten := by
  decide

end ClaudeOs.Console.Telnet
