import BuildAdvisor.Proofs.Checked.TemplateName

/-!
Names of any brackets, which need not pair up.

* `normalName_faultless` — no name meets a fault.
-/

set_option autoImplicit false

namespace BuildAdvisor.Checked

open String (utf8Len)
open Template (Encloses Level joinArguments splitArguments)

/-- No name meets a fault, whatever its brackets.

A text is cut without a fault exactly between its characters and at its ends, so every cut that a
name is rewritten with is there.  A search that begins at a `<` never takes back a bracket that it
has not counted.  It finds the first place behind which as many brackets have closed as opened since
that `<`, or that there is none.  The pieces of a text are the text again with commas between them.

The count of open brackets, of 32 bits with a sign, is the only one that a text in memory can take
out of its range, for which it needs `bracketLimit` brackets.  Where it wraps around then, this
decides at which commas a list is cut, and moves no cut.  With fewer brackets it makes no difference
whether the count is tested, and the result is the normal name. -/
theorem normalName_faultless (limit : Nat) :
    (∀ position text, (∃ cut, cutAt position text = pure cut) ↔
      ∃ before after, text = before ++ after ∧ position = utf8Len before) ∧
    (∀ before rest : List Char, utf8Len (before ++ '<' :: rest) < limit →
      ∃ closing?, closeAt limit (before ++ '<' :: rest) (utf8Len before) = pure closing? ∧
        (closing? = none ↔ ∀ read, read <+: rest → ¬ Level ('<' :: read)) ∧
        ∀ closing, closing? = some closing ↔ ∃ inner after, Encloses rest inner after ∧
          closing = utf8Len (before ++ '<' :: inner)) ∧
    (∀ text : List Char, joinArguments (splitArguments text) = text) ∧
    (∀ text : List Char, utf8Len text < limit →
      ∃ pieces, piecesOf .wrap limit text = pure pieces ∧ joinArguments pieces = text) ∧
    (∀ name : String, name.utf8ByteSize < limit →
      normalName .wrap limit name = pure (Template.normalize name)) ∧
    (∀ (overflow : Overflow) (name : String), name.utf8ByteSize < limit →
      brackets name.toList < bracketLimit →
        normalName overflow limit name = pure (Template.normalize name)) := by
  refine ⟨?_, ?_, Template.joinArguments_splitArguments, ?_, ?_, ?_⟩
  · intro position text
    constructor
    · rintro ⟨⟨before, after⟩, hcut⟩
      exact ⟨before, after, eq_of_cutAt hcut⟩
    · rintro ⟨before, after, rfl, rfl⟩
      exact ⟨(before, after), cutAt_append before after⟩
  · intro before rest hlen
    refine ⟨_, closeAt_eq hlen, ?_, ?_⟩
    · rw [Option.map_eq_none_iff, Template.closeList?_eq_none_iff]
    · intro closing
      rw [Option.map_eq_some_iff]
      constructor
      · rintro ⟨⟨inner, after⟩, hlist, rfl⟩
        exact ⟨inner, after, Template.closeList?_eq_some_iff.mp hlist, rfl⟩
      · rintro ⟨inner, after, hlist, rfl⟩
        exact ⟨(inner, after), Template.closeList?_eq_some_iff.mpr hlist, rfl⟩
  · intro text hlen
    exact ⟨splitArguments text, piecesOf_eq hlen (.inl rfl),
      Template.joinArguments_splitArguments text⟩
  · exact fun name hlen => normalName_eq hlen (.inl rfl)
  · exact fun overflow name hlen hbrackets =>
      normalName_eq hlen (.inr (listFits_of_brackets_lt hbrackets))

/-- The first list holds a bracket that closes nothing, and the name ends with one that is not
closed. -/
def strayName : String := "é< a),b>>c<"

theorem strayName_faultless :
    closeAt UInt64.size "é<a),b>>c<".toList 2 = pure (some 7) ∧
      closeAt UInt64.size "é<a),b>>c<".toList 10 = pure none ∧
      (∃ pieces, piecesOf .wrap UInt64.size "a),b".toList = pure pieces ∧
        joinArguments pieces = "a),b".toList) ∧
      normalName .wrap UInt64.size strayName = pure "é<T>>c<" ∧
      normalName .fault UInt64.size strayName = pure "é<T>>c<" := by
  obtain ⟨-, hclose, -, hpieces, hname, hnormal⟩ := normalName_faultless UInt64.size
  obtain ⟨first?, hfirst, -, hfound⟩ := hclose ['é'] "a),b>>c<".toList (by decide)
  obtain ⟨last?, hlast, hnone, -⟩ := hclose "é<a),b>>c".toList [] (by decide)
  refine ⟨?_, ?_, hpieces _ (by decide), hname strayName (by decide), ?_⟩
  · have hseven : first? = some 7 := by
      have hall : ∀ u ∈ "a),b".toList.inits, ¬ Level ('<' :: u) := by decide
      have hlist : Encloses "a),b>>c<".toList "a),b".toList ">c<".toList :=
        ⟨rfl, by decide, fun u hu => hall u ((List.mem_inits u _).mpr hu)⟩
      exact (hfound 7).mpr ⟨_, _, hlist, rfl⟩
    rw [hseven] at hfirst
    exact hfirst
  · have hnot : last? = none := by
      refine hnone.mpr fun read hread => ?_
      rw [List.prefix_nil.mp hread]
      decide
    rw [hnot] at hlast
    exact hlast
  · exact hnormal .fault strayName (by decide) (by decide)

end BuildAdvisor.Checked
