import Calculator.Proofs.Encoding
import Calculator.Text.Blank

/-!
# Lines of streams one after another

A stream that is empty or ends with a line feed is made of finished lines only. Whatever
follows such a stream begins a line of its own, and so the lines of the whole are those of
the stream and then those of what follows. A text without line feeds is one line; a carriage
return at its end may go with the line feed behind it, and is a blank in any case.
-/

namespace Calculator.Text

/-- No line of the stream is unfinished. -/
def Finished (bytes : List UInt8) : Prop :=
  bytes = [] ∨ bytes.getLast? = some 10

theorem Finished.of_cons {b : UInt8} {rest : List UInt8} (h : Finished (b :: rest)) :
    Finished rest ∧ (rest = [] → b = 10) := by
  rcases h with h | h
  · cases h
  · cases rest with
    | nil => exact ⟨.inl rfl, fun _ => by simpa using h⟩
    | cons c rest =>
        refine ⟨.inr ?_, fun h => by cases h⟩
        rwa [List.getLast?_cons_cons] at h

/-- The lines finished before come before all others. -/
theorem linesFrom_eq (line : List UInt8) (done : List (List UInt8)) (bytes : List UInt8) :
    linesFrom line done bytes = done.reverse ++ linesFrom line [] bytes := by
  induction bytes generalizing line done with
  | nil =>
      rw [linesFrom, linesFrom]
      split <;> simp
  | cons b rest ih =>
      rw [linesFrom, linesFrom]
      split
      · rw [ih, ih [] [_]]
        simp
      · rw [ih]

/-- The unfinished line `line` is finished in the bytes `a` before anything follows them. -/
theorem linesFrom_append {line a : List UInt8} (hline : a = [] → line = [])
    (ha : Finished a) (b : List UInt8) :
    linesFrom line [] (a ++ b) = linesFrom line [] a ++ lines b := by
  -- Within a line, `line` is what has been read of it.
  induction a generalizing line with
  | nil =>
      rw [hline rfl]
      rfl
  | cons c rest ih =>
      obtain ⟨hrest, hc⟩ := ha.of_cons
      rw [List.cons_append, linesFrom, linesFrom]
      split
      · rw [linesFrom_eq, linesFrom_eq [] [_] rest, ih (fun _ => rfl) hrest, List.append_assoc]
      · next hne => exact ih (fun h => absurd (hc h) hne) hrest

theorem lines_append {a : List UInt8} (ha : Finished a) (b : List UInt8) :
    lines (a ++ b) = lines a ++ lines b :=
  linesFrom_append (fun _ => rfl) ha b

theorem textLines_append {a : List UInt8} (ha : Finished a) (b : List UInt8) :
    textLines (a ++ b) = textLines a ++ textLines b := by
  rw [textLines, lines_append ha, List.map_append]
  rfl

theorem not_mem_bytes {text : List Char} (h : '\n' ∉ text) : 10 ∉ bytes text := by
  intro hmem
  obtain ⟨c, hc, hbyte⟩ := List.mem_flatMap.mp hmem
  obtain hlt | hle := Nat.lt_or_ge c.toNat 0x80
  · rw [utf8EncodeChar_of_lt hlt, List.mem_singleton] at hbyte
    have hcode : c.toNat = 10 := by
      have hnat := congrArg UInt8.toNat hbyte
      rw [UInt8.toNat_ofNat_of_lt' (Nat.lt_trans hlt (by decide))] at hnat
      exact hnat.symm
    obtain rfl : c = '\n' := Char.toNat_inj.mp hcode
    exact h hc
  · exact absurd (le_of_mem_utf8EncodeChar hle hbyte) (by decide)

theorem linesFrom_of_not_mem {run : List UInt8} (h : 10 ∉ run) (line rest : List UInt8) :
    linesFrom line [] (run ++ rest) = linesFrom (run.reverse ++ line) [] rest := by
  induction run generalizing line with
  | nil => rfl
  | cons b run ih =>
      rw [List.mem_cons, not_or] at h
      rw [List.cons_append, linesFrom, if_neg (Ne.symm h.1), ih h.2]
      simp

theorem trim_carriage (text : List Char) :
    trim (String.ofList (text ++ ['\r'])) = trim (String.ofList text) := by
  have hblank : isBlank '\r' = true := by decide
  apply String.toList_inj.mp
  simp only [trim, toList_dropTrailing, String.toList_ofList, List.dropWhile_append]
  split
  · next hempty => simp [List.isEmpty_iff.mp hempty, hblank]
  · simp [hblank]

theorem exists_carriage {text : List Char} {front : List UInt8}
    (h : front ++ [13] = bytes text) : ∃ kept, text = kept ++ ['\r'] ∧ front = bytes kept := by
  have hfirst : ∀ b ∈ [(13 : UInt8)].head?, b.IsUTF8FirstByte := by
    intro b hb
    obtain rfl : 13 = b := Option.some.inj hb
    decide
  obtain ⟨kept, behind, rfl, hfront, hbehind⟩ := exists_cut h hfirst
  have hcarriage : String.utf8EncodeChar '\r' ++ [] = bytes behind := hbehind
  obtain ⟨tail, rfl, htail⟩ := exists_cons_of_append hcarriage
  obtain rfl : tail = [] := bytes_eq_nil_iff.mp htail.symm
  exact ⟨kept, rfl, hfront⟩

/-- A text without line feeds is a line up to the blanks around it, whether or not the stream
ends with it. -/
theorem exists_textLines_encode {s : String} (hs : s ≠ "") (h : '\n' ∉ s.toList)
    {rest : List UInt8} (hrest : ∀ b ∈ rest.head?, b = 10) :
    ∃ line, textLines (encode s ++ rest) = some line :: textLines rest.tail ∧
      trim line = trim s := by
  have hdecode : decode? (bytes s.toList) = some s := decode?_eq_some_iff.mpr rfl
  rw [encode_eq_bytes, textLines, lines, linesFrom_of_not_mem (not_mem_bytes h), List.append_nil]
  cases rest with
  | nil =>
      have hne : bytes s.toList ≠ [] := mt bytes_eq_nil_iff.mp (mt String.toList_eq_nil_iff.mp hs)
      refine ⟨s, ?_, rfl⟩
      simp [linesFrom, textLines, lines, hne, hdecode]
  | cons b rest =>
      obtain rfl : b = 10 := hrest b rfl
      rw [linesFrom, if_pos rfl, linesFrom_eq]
      generalize hline : (bytes s.toList).reverse = line
      have hbytes : line.reverse = bytes s.toList := by rw [← hline, List.reverse_reverse]
      unfold dropCarriage
      split
      · next line =>
          rw [List.reverse_cons] at hbytes
          obtain ⟨kept, hkept, hfront⟩ := exists_carriage hbytes
          have hkeptText : decode? line.reverse = some (String.ofList kept) := by
            rw [decode?_eq_some_iff, String.toList_ofList, hfront]
          refine ⟨String.ofList kept, ?_, ?_⟩
          · simp [textLines, lines, hkeptText]
          · rw [← trim_carriage, ← hkept, String.ofList_toList]
      · refine ⟨s, ?_, rfl⟩
        simp [textLines, lines, hbytes, hdecode]

end Calculator.Text
