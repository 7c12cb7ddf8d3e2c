-- What a text means as the value of a setting. Addresses are written in one way, numbers as numerals,
-- the positions of a switch as words, and names as they are.
import NetBoot.Settings
import NetBoot.Proofs.Net.AddressText

namespace NetBoot

/-- The words for the two positions of a switch. -/
def switchWords : Bool → List String
  | true => ["true", "yes", "on", "1"]
  | false => ["false", "no", "off", "0"]

theorem readSwitch?_eq_some {text : String} {b : Bool} :
    readSwitch? text = some b ↔ String.ofList (text.toList.map Char.toLower) ∈ switchWords b := by
  have hapart : ∀ word ∈ switchWords true, word ∉ switchWords false := by decide
  unfold readSwitch?
  generalize String.ofList (text.toList.map Char.toLower) = word
  show (if word ∈ switchWords true then some true
    else if word ∈ switchWords false then some false else none) = some b ↔ _
  by_cases htrue : word ∈ switchWords true
  · have hfalse := hapart word htrue
    cases b <;> simp [htrue, hfalse]
  · by_cases hfalse : word ∈ switchWords false
    · cases b <;> simp [htrue, hfalse]
    · cases b <;> simp [htrue, hfalse]

theorem readPort?_eq_some {text : String} {port : UInt16} :
    readPort? text = some port ↔ Text.IsNumeral text.toList port.toNat := by
  simp only [readPort?, Option.map_eq_some_iff, Text.readUpTo?_eq_some]
  refine ⟨?_, ?_⟩
  · rintro ⟨n, ⟨hn, hle⟩, rfl⟩
    rwa [UInt16.toNat_ofNat_of_lt' (Nat.lt_succ_of_le hle)]
  · intro h
    exact ⟨port.toNat, ⟨h, Nat.le_of_lt_succ port.toNat_lt⟩, UInt16.ofNat_toNat⟩

theorem readInterval?_eq_some {text : String} {seconds : UInt64} :
    readInterval? text = some seconds ↔
      Text.IsNumeral text.toList seconds.toNat ∧ seconds ≠ 0 := by
  have hzero : seconds = 0 ↔ seconds.toNat = 0 := by rw [← UInt64.toNat_inj]; rfl
  simp only [readInterval?, Option.map_eq_some_iff, Option.filter_eq_some_iff,
    Text.readUpTo?_eq_some, decide_eq_true_eq, ne_eq, hzero]
  refine ⟨?_, ?_⟩
  · rintro ⟨n, ⟨⟨hn, hle⟩, hpos⟩, rfl⟩
    rw [UInt64.toNat_ofNat_of_lt' (by omega)]
    exact ⟨hn, hpos⟩
  · rintro ⟨h, hpos⟩
    have hlt : seconds.toNat < UInt64.size := seconds.toNat_lt
    exact ⟨seconds.toNat, ⟨⟨h, Nat.le_pred_of_lt hlt⟩, hpos⟩, UInt64.ofNat_toNat⟩

theorem Ipv4.ofText?_eq_some {text : String} {ip : Ipv4} : ofText? text = some ip ↔ text = ip.text := by
  rw [ofText?, ofChars?_eq_some, Ipv4.text, ← String.toList_inj, String.toList_ofList]

namespace Setting

/-- What a text means as the value of a setting. -/
def Denotes : (s : Setting) → String → s.Value → Prop
  | bindAddress, text, ip => text = ip.text
  | bindPort, text, port => Text.IsNumeral text.toList port.toNat
  | outPort, text, port => Text.IsNumeral text.toList port.toNat
  | efiOutPort, text, port => Text.IsNumeral text.toList port.toNat
  | interface, text, name => name = if text = "" then none else some text
  | apiHost, text, name => name = text
  | apiPort, text, port => Text.IsNumeral text.toList port.toNat
  | gateway, text, ip => text = ip.text
  | checkFirst, text, b => String.ofList (text.toList.map Char.toLower) ∈ switchWords b
  | userClass, text, name => name = text
  | dataFolder, text, name => name = text
  | leaseFile, text, name => name = text
  | leasePollSeconds, text, seconds =>
    Text.IsNumeral text.toList seconds.toNat ∧ seconds ≠ 0
  | logFilter, text, name => name = text

/-- A setting takes the texts that mean something as its value. -/
def Takes (s : Setting) (text : String) : Prop := ∃ v, s.Denotes text v

theorem read?_eq_some {s : Setting} {text : String} {v : s.Value} :
    s.read? text = some v ↔ s.Denotes text v := by
  cases s with
  | bindAddress => exact Ipv4.ofText?_eq_some
  | gateway => exact Ipv4.ofText?_eq_some
  | bindPort => exact readPort?_eq_some
  | outPort => exact readPort?_eq_some
  | efiOutPort => exact readPort?_eq_some
  | apiPort => exact readPort?_eq_some
  | checkFirst => exact readSwitch?_eq_some
  | leasePollSeconds => exact readInterval?_eq_some
  | _ => exact Option.some_inj.trans eq_comm

theorem read?_eq_none {s : Setting} {text : String} : s.read? text = none ↔ ¬ s.Takes text := by
  rw [Option.eq_none_iff_forall_ne_some, Takes, not_exists]
  exact forall_congr' fun v => not_congr read?_eq_some

/-- A text means one value. -/
theorem Denotes.unique {s : Setting} {text : String} {v w : s.Value} (hv : s.Denotes text v)
    (hw : s.Denotes text w) : v = w :=
  Option.some.inj ((read?_eq_some.mpr hv).symm.trans (read?_eq_some.mpr hw))

end Setting

end NetBoot
