import SimpleServer.Lib.HeaderBlock
import SimpleServer.Lib.Fields

/-!
# Reading an HTTP message

A message is a start line, header fields and a body, written as a block of
lines with an empty line behind it. The reader is a strict one: the head ends
at the first empty line, a line ends with CR LF and has no other CR or LF in
it, the start line has three parts, and a field has a name, a colon, a blank
and a value. What is written from plain parts is read back as it was, so no
part of it can be taken for a field or for the body.
-/

namespace HttpMessage

open CString HeaderBlock

structure Message where
  version : Bytes
  code : Bytes
  reason : Bytes
  fields : List (Bytes × Bytes)
  body : Bytes
  deriving DecidableEq, Repr

def Message.startLine (m : Message) : Bytes := m.version ++ 32 :: (m.code ++ 32 :: m.reason)

def Message.head (m : Message) : List Bytes :=
  m.startLine :: m.fields.map fun f => fieldLine f.1 f.2

def Message.write (m : Message) : Bytes := block m.head ++ eol ++ m.body

def readStart (l : Bytes) : Option (Bytes × Bytes × Bytes) := do
  let (version, rest) ← Fields.cut 32 l
  let (code, reason) ← Fields.cut 32 rest
  some (version, code, reason)

def readField (l : Bytes) : Option (Bytes × Bytes) := do
  let (name, rest) ← Fields.cut 58 l
  if rest.head? = some 32 then some (name, rest.tail) else none

/-- A line without its CR, which must be the only one in it. -/
def readLine (l : Bytes) : Option Bytes :=
  if l.getLast? = some 13 ∧ 13 ∉ l.dropLast then some l.dropLast else none

/-- All that stands behind the head is the body; no `Content-Length` among the
fields is looked at. -/
def read (s : Bytes) : Option Message := do
  let k ← findSub blankLine s
  let ended ← Fields.lines 10 (s.take (k + 2))
  let ls ← ended.mapM readLine
  let start ← ls.head?
  let (version, code, reason) ← readStart start
  let fields ← ls.tail.mapM readField
  some ⟨version, code, reason, fields, s.drop (k + 4)⟩

/-- Nothing in the head ends a line or a part of it too early. -/
structure Message.Plain (m : Message) : Prop where
  version : 32 ∉ m.version ∧ 13 ∉ m.version ∧ 10 ∉ m.version
  code : 32 ∉ m.code ∧ 13 ∉ m.code ∧ 10 ∉ m.code
  reason : 13 ∉ m.reason ∧ 10 ∉ m.reason
  name : ∀ f ∈ m.fields, 58 ∉ f.1 ∧ 13 ∉ f.1 ∧ 10 ∉ f.1
  value : ∀ f ∈ m.fields, 13 ∉ f.2 ∧ 10 ∉ f.2

section Parts

variable {m : Message} {l : Bytes} {ls : List Bytes}

theorem readStart_startLine (h : m.Plain) :
    readStart m.startLine = some (m.version, m.code, m.reason) := by
  rw [readStart, Message.startLine, Fields.cut_append h.version.1]
  simp [Fields.cut_append h.code.1]

theorem readField_fieldLine {name value : Bytes} (hn : 58 ∉ name) :
    readField (fieldLine name value) = some (name, value) := by
  have hcut : Fields.cut 58 (fieldLine name value) = some (name, 32 :: value) := by
    rw [fieldLine, List.append_assoc]
    exact Fields.cut_append hn
  rw [readField, hcut]
  rfl

theorem readLine_concat (h : 13 ∉ l) : readLine (l ++ [13]) = some l := by
  simp [readLine, h]

/-- The lines of a head are neither empty nor broken. -/
theorem Message.Plain.lines (h : m.Plain) : ∀ l ∈ m.head, Line l ∧ 10 ∉ l := by
  intro l hl
  rcases List.mem_cons.mp hl with rfl | hl
  · refine ⟨⟨by simp [Message.startLine], ?_⟩, ?_⟩
    · simp [Message.startLine, h.version.2.1, h.code.2.1, h.reason.1]
    · simp [Message.startLine, h.version.2.2, h.code.2.2, h.reason.2]
  · obtain ⟨f, hf, rfl⟩ := List.mem_map.mp hl
    have hn := h.name f hf
    have hv := h.value f hf
    refine ⟨⟨by simp [fieldLine], ?_⟩, ?_⟩
    · simp [fieldLine, hn.2.1, hv.1]
    · simp [fieldLine, hn.2.2, hv.2]

theorem block_terminated (ls : List Bytes) :
    block ls = Fields.terminated 10 (ls.map (· ++ [13])) := by
  rw [block, Fields.terminated, List.flatMap_map]
  refine List.flatMap_congr fun l _ => ?_
  rw [List.append_assoc]
  rfl

theorem lines_block (h : ∀ l ∈ ls, 10 ∉ l) :
    Fields.lines 10 (block ls) = some (ls.map (· ++ [13])) := by
  rw [block_terminated]
  refine Fields.lines_terminated fun l hl => ?_
  obtain ⟨l', hl', rfl⟩ := List.mem_map.mp hl
  simp [h l' hl']

theorem mapM_readLine (h : ∀ l ∈ ls, 13 ∉ l) : (ls.map (· ++ [13])).mapM readLine = some ls := by
  rw [Fields.mapM_eq_some, List.forall₂_map_left_iff]
  exact List.forall₂_same.mpr fun l hl => readLine_concat (h l hl)

theorem mapM_readField {fields : List (Bytes × Bytes)} (h : ∀ f ∈ fields, 58 ∉ f.1) :
    (fields.map fun f => fieldLine f.1 f.2).mapM readField = some fields := by
  rw [Fields.mapM_eq_some, List.forall₂_map_left_iff]
  exact List.forall₂_same.mpr fun f hf => readField_fieldLine (h f hf)

end Parts

theorem read_write {m : Message} (h : m.Plain) : read m.write = some m := by
  have hlines := h.lines
  have hne : m.head ≠ [] := List.cons_ne_nil _ _
  obtain ⟨k, hk, hlen⟩ := findSub_block hne (fun l hl => (hlines l hl).1) m.body
  have hhead : (block m.head).length = k + 2 := by
    rw [List.length_append] at hlen
    have heol : eol.length = 2 := rfl
    omega
  have htake : m.write.take (k + 2) = block m.head := by
    rw [Message.write, List.append_assoc, ← hhead, List.take_left]
  have hdrop : m.write.drop (k + 4) = m.body := by
    rw [Message.write, ← hlen, List.drop_left]
  have hfind : findSub blankLine m.write = some k := hk
  simp only [read, hfind, htake, hdrop, lines_block fun l hl => (hlines l hl).2,
    mapM_readLine fun l hl => (hlines l hl).1.noReturn, Option.bind_eq_bind, Option.bind_some]
  rw [Message.head, List.head?_cons, List.tail_cons, Option.bind_some, readStart_startLine h,
    Option.bind_some, mapM_readField fun f hf => (h.name f hf).1]
  rfl

end HttpMessage
