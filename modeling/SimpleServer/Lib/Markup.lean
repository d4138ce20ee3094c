import SimpleServer.Lib.CString

/-!
# The links of a page

An item begins with `<li>`. Its link is the value of the next `href`, up to the
closing quote; its text begins behind the tag and ends at the next `<`. The
reader goes on in the text, so that a tag that stands there is read as well,
and skips what stands in the quotes.
-/

namespace Markup

open CString

structure Link where
  href : Bytes
  text : Bytes
  deriving DecidableEq, Repr

def item : Bytes := ascii "<li>"
def hrefStart : Bytes := ascii "href=\""
def itemEnd : Bytes := ascii "</a></li>"

def behind (w s : Bytes) : Option Bytes := (findSub w s).map fun k => s.drop (k + w.length)

def readLink (s : Bytes) : Option (Link × Bytes) :=
  (behind hrefStart s).bind fun v =>
    (behind (ascii ">") (v.dropWhile (· != 34))).map fun rest =>
      (⟨v.takeWhile (· != 34), rest.takeWhile (· != 60)⟩, rest)

/-- Fails where an item has no link; one unit of fuel is one item. -/
def readItems : ℕ → Bytes → Option (List Link)
  | 0, _ => none
  | fuel + 1, s =>
    match behind item s with
    | none => some []
    | some s => (readLink s).bind fun r => (readItems fuel r.2).map (r.1 :: ·)

def links (page : Bytes) : Option (List Link) := readItems (page.length + 1) page

/-- An item as a generator of pages writes it. -/
def writeItem (icon : Bytes) (l : Link) : Bytes :=
  item ++ (icon ++ (ascii " <a " ++ (hrefStart ++ (l.href ++ (ascii "\">" ++
    (l.text ++ itemEnd))))))

structure Readable (l : Link) : Prop where
  href : 34 ∉ l.href
  text : 60 ∉ l.text

/-- What stands before the link does not look like one. -/
def PlainIcon (icon : Bytes) : Prop := ¬ hrefStart <:+: icon ++ ascii " <a " ++ hrefStart.dropLast

section Reading

variable {w a s lead tail icon : Bytes} {l : Link} {fuel : ℕ} {ls : List Link}

theorem behind_first (hw : w ≠ []) (h : ¬ w <:+: a ++ w.dropLast) :
    behind w (a ++ (w ++ s)) = some s := by
  rw [behind, findSub_first hw h, Option.map_some, ← List.drop_drop, List.drop_left, List.drop_left]

theorem behind_none (hw : w ≠ []) : behind w s = none ↔ ¬ w <:+: s := by
  rw [behind, Option.map_eq_none_iff, findSub_eq_none hw]

theorem takeWhile_run {b : Byte} (h : b ∉ a) : (a ++ b :: s).takeWhile (· != b) = a := by
  rw [List.takeWhile_append_of_pos, List.takeWhile_cons_of_neg (by simp), List.append_nil]
  intro x hx
  have hne : x ≠ b := fun he => h (he ▸ hx)
  simpa using hne

theorem dropWhile_run_append {b : Byte} (h : b ∉ a) :
    (a ++ b :: s).dropWhile (· != b) = b :: s := by
  rw [List.dropWhile_append_of_pos, List.dropWhile_cons_of_neg (by simp)]
  intro x hx
  have hne : x ≠ b := fun he => h (he ▸ hx)
  simpa using hne

theorem readLink_written (hl : Readable l) (hi : PlainIcon icon) :
    readLink (icon ++ ascii " <a " ++ (hrefStart ++ (l.href ++ (ascii "\">" ++
      (l.text ++ (itemEnd ++ s)))))) = some (l, l.text ++ (itemEnd ++ s)) := by
  have hquote : ∀ v, ascii "\">" ++ v = 34 :: (ascii ">" ++ v) := fun v => rfl
  have hend : ∀ v, itemEnd ++ v = 60 :: (ascii "/a></li>" ++ v) := fun v => rfl
  rw [readLink, behind_first (by decide) hi, Option.bind_some, hquote, takeWhile_run hl.href,
    dropWhile_run_append hl.href]
  have hgt : behind (ascii ">") (34 :: (ascii ">" ++ (l.text ++ (itemEnd ++ s)))) =
      some (l.text ++ (itemEnd ++ s)) := behind_first (a := [34]) (by decide) (by decide)
  rw [hgt, Option.map_some, hend, takeWhile_run hl.text]

theorem text_plain (h : 60 ∉ a) (hs : ¬ item <:+: s) : ¬ item <:+: a ++ s := by
  rw [← findSub_eq_none (by decide)] at hs ⊢
  have hb : findSub item (a ++ s) = (findSub item s).map (· + a.length) := findSub_behind h s
  rw [hb, hs]
  rfl

theorem readItems_written (hl : Readable l) (hi : PlainIcon icon)
    (hlead : ¬ item <:+: lead ++ item.dropLast) :
    readItems (fuel + 1) (lead ++ (writeItem icon l ++ s)) =
      (readItems fuel (l.text ++ (itemEnd ++ s))).map (l :: ·) := by
  have hw : writeItem icon l ++ s = item ++ (icon ++ ascii " <a " ++ (hrefStart ++ (l.href ++
      (ascii "\">" ++ (l.text ++ (itemEnd ++ s)))))) := by
    simp only [writeItem, List.append_assoc]
  rw [readItems, hw, behind_first (by decide) hlead]
  simp only [readLink_written hl hi, Option.bind_some]

theorem readItems_page {items : List (Bytes × Link)} (hl : ∀ i ∈ items, Readable i.2)
    (hi : ∀ i ∈ items, PlainIcon i.1) (hlead : ¬ item <:+: lead ++ item.dropLast)
    (hnone : items = [] → ¬ item <:+: lead ++ tail) (htail : ¬ item <:+: itemEnd ++ tail)
    (hf : items.length < fuel) :
    readItems fuel (lead ++ (items.flatMap (fun i => writeItem i.1 i.2) ++ tail)) =
      some (items.map Prod.snd) := by
  induction items generalizing lead fuel with
  | nil =>
    obtain ⟨fuel, rfl⟩ := Nat.exists_eq_succ_of_ne_zero (Nat.ne_zero_of_lt hf)
    rw [List.flatMap_nil, List.nil_append, readItems, (behind_none (by decide)).mpr (hnone rfl)]
    rfl
  | cons i items ih =>
    obtain ⟨fuel, rfl⟩ := Nat.exists_eq_succ_of_ne_zero (Nat.ne_zero_of_lt hf)
    have htext := (hl i List.mem_cons_self).text
    rw [List.flatMap_cons, List.append_assoc,
      readItems_written (hl i List.mem_cons_self) (hi i List.mem_cons_self) hlead,
      ← List.append_assoc, ih (fun j hj => hl j (List.mem_cons_of_mem _ hj))
        (fun j hj => hi j (List.mem_cons_of_mem _ hj)) ?_ ?_ (by simpa using hf)]
    · rfl
    · rw [List.append_assoc]
      exact text_plain htext (by decide)
    · intro _
      rw [List.append_assoc]
      exact text_plain htext htail

/-- The length of the page is always enough fuel. -/
theorem links_page {items : List (Bytes × Link)} (hl : ∀ i ∈ items, Readable i.2)
    (hi : ∀ i ∈ items, PlainIcon i.1) (hlead : ¬ item <:+: lead ++ item.dropLast)
    (hnone : items = [] → ¬ item <:+: lead ++ tail) (htail : ¬ item <:+: itemEnd ++ tail) :
    links (lead ++ (items.flatMap (fun i => writeItem i.1 i.2) ++ tail)) =
      some (items.map Prod.snd) := by
  apply readItems_page hl hi hlead hnone htail
  have hlen : items.length ≤ (items.flatMap fun i => writeItem i.1 i.2).length := by
    clear hl hi hnone
    induction items with
    | nil => simp
    | cons i items ih =>
      have h4 : item.length = 4 := rfl
      simp only [List.flatMap_cons, List.length_cons, List.length_append, writeItem] at ih ⊢
      omega
  simp only [List.length_append]
  omega

theorem readItems_readable (h : readItems fuel s = some ls) : ∀ l ∈ ls, Readable l := by
  induction fuel generalizing s ls with
  | zero => cases h
  | succ fuel ih =>
    rw [readItems] at h
    cases hb : behind item s with
    | none =>
      rw [hb] at h
      cases h
      simp
    | some t =>
      rw [hb] at h
      obtain ⟨⟨k, rest⟩, hk, hr⟩ := Option.bind_eq_some_iff.mp h
      obtain ⟨ls', hls, rfl⟩ := Option.map_eq_some_iff.mp hr
      obtain ⟨v, -, hv⟩ := Option.bind_eq_some_iff.mp hk
      obtain ⟨u, -, hu⟩ := Option.map_eq_some_iff.mp hv
      cases hu
      intro l hl
      rcases List.mem_cons.mp hl with rfl | hl
      · constructor
        · exact fun hm => by simpa using List.mem_takeWhile_imp hm
        · exact fun hm => by simpa using List.mem_takeWhile_imp hm
      · exact ih hls l hl

end Reading

end Markup
