import ActorFramework.Net.Http.HeaderText
import ActorFramework.Net.Http.Server

/-!
# Requests that are sent to a server

A request has a first line, fields and a body.  The size of the body is in the
field `Content-Length`, as a decimal number, and without this field there is no
body.
-/

namespace ActorFramework.Net.Http.Server

open ActorFramework.Core
open Foundation List

structure Message where
  method : List Byte
  target : List Byte
  version : List Byte
  fields : List Field
  body : List Byte

namespace Message

variable {cfg : Config} {m : Message}

def requestLine (m : Message) : List Byte :=
  m.method ++ (ascii " " ++ (m.target ++ (ascii " " ++ m.version)))

def raw (m : Message) : List Byte :=
  headerText (m.requestLine :: m.fields.map fieldLine)

def bytes (m : Message) : List Byte := m.raw ++ m.body

def kind (m : Message) : Method := (parseMethod m.method).getD .get

def header (cfg : Config) (m : Message) : RequestHeader :=
  { method := m.kind
    uri := (parseRequestTarget cfg.makeUri m.kind m.target).getD ⟨[], false⟩
    version := m.version
    fields := m.fields.map trimmed }

def request (cfg : Config) (m : Message) : Request := ⟨m.header cfg, m.body⟩

def announced (cfg : Config) (m : Message) : Option Nat :=
  contentLength cfg.real (m.fields.map trimmed)

def decimal (text : List Byte) : Nat :=
  text.foldl (fun x c => x * 10 + asciiToInt 10 c) 0

structure WellFormed (cfg : Config) (m : Message) : Prop where
  method : (parseMethod m.method).isSome
  methodWord : 32#8 ∉ m.method ∧ 13#8 ∉ m.method
  target : (parseRequestTarget cfg.makeUri m.kind m.target).isSome
  targetWord : 32#8 ∉ m.target ∧ 13#8 ∉ m.target
  version : 13#8 ∉ m.version
  fields : ∀ field ∈ m.fields, IsField field
  unchunked : chunkedTransferEncoding (m.fields.map trimmed) = false
  noLength : findByKey (m.fields.map trimmed) (ascii "Content-Length") =
    none → m.body = []
  length : ∀ text, findByKey (m.fields.map trimmed)
    (ascii "Content-Length") = some text →
      text ≠ [] ∧ text.all (isDigit 10) = true ∧ decimal text = m.body.length
  size : m.bytes.length ≤ cfg.maxRequestSize

theorem isLine_requestLine (h : m.WellFormed cfg) : IsLine m.requestLine := by
  have hblank : 13#8 ∉ ascii " " := by decide
  refine ⟨?_, ?_⟩
  · simp [requestLine, ascii]
  · simp [requestLine, hblank, h.methodWord.2, h.targetWord.2, h.version]

theorem isLine_raw (h : m.WellFormed cfg) :
    ∀ line ∈ m.requestLine :: m.fields.map fieldLine, IsLine line := by
  simp only [forall_mem_cons, forall_mem_map]
  exact ⟨isLine_requestLine h, fun field hfield =>
    isLine_fieldLine (h.fields field hfield)⟩

theorem length_raw (m : Message) : 4 ≤ m.raw.length := by
  rw [raw, headerText_cons]
  have hrest : eol.length ≤ (headerText (m.fields.map fieldLine)).length := by
    rw [headerText, length_append]
    exact Nat.le_add_left _ _
  simp only [length_append, eol_eq, length_cons, length_nil]
    at hrest ⊢
  omega

theorem search_raw (h : m.WellFormed cfg) (rest : List Byte) :
    ∃ i, search V1.endOfHeader (m.raw ++ rest) = some i ∧
      i + V1.endOfHeader.length = m.raw.length :=
  Option.map_eq_some_iff.mp (search_headerText (isLine_raw h) rest)

section

variable {input rest : List Byte} (h : m.WellFormed cfg)
  (hin : input <+: m.raw ++ rest)

include h hin

theorem splitHeader_short (hshort : input.length < m.raw.length) :
    V1.splitHeader input = none := by
  obtain ⟨i, hi, hlen⟩ := search_raw h rest
  rw [V1.splitHeader, search_eq_none hi hin (by omega)]
  rfl

theorem splitHeader_long (hlong : m.raw.length ≤ input.length) :
    V1.splitHeader input = some (m.raw, input.drop m.raw.length) := by
  obtain ⟨i, hi, hlen⟩ := search_raw h rest
  have hstart := prefix_of_prefix_length_le
    (prefix_append m.raw rest) hin hlong
  rw [V1.splitHeader, search_eq_some hi hin (by omega), Option.map_some,
    hlen, ← prefix_iff_eq_take.mp hstart]

end

theorem parse_raw (h : m.WellFormed cfg) :
    RequestHeader.parse cfg.makeUri m.raw = .ok (m.header cfg) := by
  obtain ⟨kind, hkind⟩ := Option.isSome_iff_exists.mp h.method
  have hkind' : m.kind = kind := by
    rw [Message.kind, hkind]
    rfl
  obtain ⟨uri, huri⟩ := Option.isSome_iff_exists.mp h.target
  have hnil : m.raw ≠ [] := by
    have hlen := length_raw m
    exact length_pos_iff.mp (by omega)
  have hfirst : splitBy m.raw eol =
      (m.requestLine, headerText (m.fields.map fieldLine)) := by
    rw [raw, headerText_cons, splitBy_eol (isLine_requestLine h).noReturn]
  have hmethod : splitBy m.requestLine (ascii " ") =
      (m.method, m.target ++ (ascii " " ++ m.version)) :=
    splitBy_space h.methodWord.1 _
  have htarget : splitBy (m.target ++ (ascii " " ++ m.version)) (ascii " ") =
      (m.target, m.version) := splitBy_space h.targetWord.1 _
  rw [RequestHeader.parse, if_neg hnil]
  simp only [hfirst, hmethod, hkind, htarget]
  rw [hkind'] at huri
  simp only [huri, parseFields_headerText h.fields, header, hkind', Option.getD]

end Message

end ActorFramework.Net.Http.Server
