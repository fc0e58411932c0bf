import Kfs.Drivers.Keyboard

/-!
# Keyboard layouts

The tables of `src/drivers/keyboard/layout.h` and the functions of `src/drivers/keyboard/keyboard.c`
that bind keys to handlers. A table ends with `UNDEFINED_KEY`. Switching the layout binds the keys of
the new one and unbinds none, so that what is bound might depend on every layout there was before.

## Layers

- `keyboardRemapLayout`, `keyboardSwitchLayout`: the code;
- `bound`: the keys of a table laid over a layout;
- `layoutOf`: what is bound in each of the two layouts;
- `switch_runs`: what is bound after any number of switches.
-/

namespace Kfs.Drivers

open Kfs.Lib

/-! ## Keys -/

/-- `enum key_undergroup`. -/
inductive Undergroup where
  | none
  | letter
  | topKey
  | punctuation
  | space
  | numPad
  | press
  | release
  | toggle
  | backspace
  | enter
  | escape
  deriving DecidableEq, Repr

/-- The flags of `layout.h`. -/
inductive Flag where
  | capsLock
  | leftShift
  | rightShift
  | leftCtrl
  | leftAlt
  | numLock
  | scrollLock
  deriving DecidableEq, Repr

/-- `struct keyboard_key`, as it stands in the tables. -/
structure TableKey where
  value : UInt16
  altValue : UInt16
  keycode : UInt16
  category : KeyCategory
  undergroup : Undergroup
  statePtr : Option Flag
  deriving DecidableEq, Repr

/-- `UNDEFINED_KEY`. -/
def undefinedKey : TableKey := ⟨0, 0, 0, .alphanumeric, .none, none⟩

/-! ## Tables -/

/-- `printable_keys`. -/
def printableKeys : List TableKey :=
  [ -- letters
    ⟨0x61, 0x41, 0x1E, .alphanumeric, .letter, none⟩,
    ⟨0x62, 0x42, 0x30, .alphanumeric, .letter, none⟩,
    ⟨0x63, 0x43, 0x2E, .alphanumeric, .letter, none⟩,
    ⟨0x64, 0x44, 0x20, .alphanumeric, .letter, none⟩,
    ⟨0x65, 0x45, 0x12, .alphanumeric, .letter, none⟩,
    ⟨0x66, 0x46, 0x21, .alphanumeric, .letter, none⟩,
    ⟨0x67, 0x47, 0x22, .alphanumeric, .letter, none⟩,
    ⟨0x68, 0x48, 0x23, .alphanumeric, .letter, none⟩,
    ⟨0x69, 0x49, 0x17, .alphanumeric, .letter, none⟩,
    ⟨0x6A, 0x4A, 0x24, .alphanumeric, .letter, none⟩,
    ⟨0x6B, 0x4B, 0x25, .alphanumeric, .letter, none⟩,
    ⟨0x6C, 0x4C, 0x26, .alphanumeric, .letter, none⟩,
    ⟨0x6D, 0x4D, 0x32, .alphanumeric, .letter, none⟩,
    ⟨0x6E, 0x4E, 0x31, .alphanumeric, .letter, none⟩,
    ⟨0x6F, 0x4F, 0x18, .alphanumeric, .letter, none⟩,
    ⟨0x70, 0x50, 0x19, .alphanumeric, .letter, none⟩,
    ⟨0x71, 0x51, 0x10, .alphanumeric, .letter, none⟩,
    ⟨0x72, 0x52, 0x13, .alphanumeric, .letter, none⟩,
    ⟨0x73, 0x53, 0x1F, .alphanumeric, .letter, none⟩,
    ⟨0x74, 0x54, 0x14, .alphanumeric, .letter, none⟩,
    ⟨0x75, 0x55, 0x16, .alphanumeric, .letter, none⟩,
    ⟨0x76, 0x56, 0x2F, .alphanumeric, .letter, none⟩,
    ⟨0x77, 0x57, 0x11, .alphanumeric, .letter, none⟩,
    ⟨0x78, 0x58, 0x2D, .alphanumeric, .letter, none⟩,
    ⟨0x79, 0x59, 0x15, .alphanumeric, .letter, none⟩,
    ⟨0x7A, 0x5A, 0x2C, .alphanumeric, .letter, none⟩,
    -- top keys
    ⟨0x31, 0x21, 0x02, .alphanumeric, .topKey, none⟩,
    ⟨0x32, 0x40, 0x03, .alphanumeric, .topKey, none⟩,
    ⟨0x33, 0x23, 0x04, .alphanumeric, .topKey, none⟩,
    ⟨0x34, 0x24, 0x05, .alphanumeric, .topKey, none⟩,
    ⟨0x35, 0x25, 0x06, .alphanumeric, .topKey, none⟩,
    ⟨0x36, 0x5E, 0x07, .alphanumeric, .topKey, none⟩,
    ⟨0x37, 0x26, 0x08, .alphanumeric, .topKey, none⟩,
    ⟨0x38, 0x2A, 0x09, .alphanumeric, .topKey, none⟩,
    ⟨0x39, 0x28, 0x0A, .alphanumeric, .topKey, none⟩,
    ⟨0x30, 0x29, 0x0B, .alphanumeric, .topKey, none⟩,
    -- specials
    ⟨0x2D, 0x5F, 0x0C, .alphanumeric, .punctuation, none⟩,
    ⟨0x3D, 0x2B, 0x0D, .alphanumeric, .punctuation, none⟩,
    ⟨0x5B, 0x7B, 0x1A, .alphanumeric, .punctuation, none⟩,
    ⟨0x5D, 0x7D, 0x1B, .alphanumeric, .punctuation, none⟩,
    ⟨0x3B, 0x3A, 0x27, .alphanumeric, .punctuation, none⟩,
    ⟨0x27, 0x22, 0x28, .alphanumeric, .punctuation, none⟩,
    ⟨0x60, 0x7E, 0x29, .alphanumeric, .punctuation, none⟩,
    ⟨0x5C, 0x7C, 0x2B, .alphanumeric, .punctuation, none⟩,
    ⟨0x2C, 0x3C, 0x33, .alphanumeric, .punctuation, none⟩,
    ⟨0x2E, 0x3E, 0x34, .alphanumeric, .punctuation, none⟩,
    ⟨0x2F, 0x3F, 0x35, .alphanumeric, .punctuation, none⟩,
    -- spaces
    ⟨0x20, 0x20, 0x39, .alphanumeric, .space, none⟩,
    ⟨0x09, 0x09, 0x0F, .alphanumeric, .space, none⟩,
    -- the number pad; the others are navigation keys
    ⟨0x2A, 0x2A, 0x37, .alphanumeric, .numPad, none⟩,
    ⟨0x2D, 0x2D, 0x4A, .alphanumeric, .numPad, none⟩,
    ⟨0x2B, 0x2B, 0x4E, .alphanumeric, .numPad, none⟩,
    undefinedKey ]

/-- `control_keys`. -/
def controlKeys : List TableKey :=
  [ -- press
    ⟨0, 0, 0x1D, .control, .press, some .leftCtrl⟩,
    ⟨0, 0, 0x2A, .control, .press, some .leftShift⟩,
    ⟨0, 0, 0x36, .control, .press, some .rightShift⟩,
    ⟨0, 0, 0x38, .control, .press, some .leftAlt⟩,
    -- release
    ⟨0, 0, 0x9D, .control, .release, some .leftCtrl⟩,
    ⟨0, 0, 0xAA, .control, .release, some .leftShift⟩,
    ⟨0, 0, 0xB6, .control, .release, some .rightShift⟩,
    ⟨0, 0, 0xB8, .control, .release, some .leftAlt⟩,
    -- toggle
    ⟨0, 0, 0xBA, .control, .toggle, some .capsLock⟩,
    ⟨0, 0, 0xC5, .control, .toggle, some .numLock⟩,
    ⟨0, 0, 0xC6, .control, .toggle, some .scrollLock⟩,
    undefinedKey ]

/-- `navigation_keys`. -/
def navigationKeys : List TableKey :=
  [ ⟨0xA4, 0x38, 0x48, .navigation, .numPad, some .numLock⟩,
    ⟨0x10, 0x32, 0x50, .navigation, .numPad, some .numLock⟩,
    ⟨0xA6, 0x34, 0x4B, .navigation, .numPad, some .numLock⟩,
    ⟨0x05, 0x36, 0x4D, .navigation, .numPad, some .numLock⟩,
    ⟨0xF2, 0x37, 0x47, .navigation, .numPad, some .numLock⟩,
    ⟨0x1B, 0x31, 0x4F, .navigation, .numPad, some .numLock⟩,
    ⟨0x4D, 0x39, 0x49, .navigation, .numPad, some .numLock⟩,
    ⟨0x5E, 0x33, 0x51, .navigation, .numPad, some .numLock⟩,
    ⟨0x6F, 0x30, 0x52, .navigation, .numPad, some .numLock⟩,
    ⟨0x4E, 0x2E, 0x53, .navigation, .numPad, some .numLock⟩,
    ⟨0xE2, 0x35, 0x4C, .navigation, .numPad, some .numLock⟩,
    undefinedKey ]

/-- `function_keys`. -/
def functionKeys : List TableKey :=
  [ ⟨0, 0, 0x3B, .function, .none, none⟩,
    ⟨1, 0, 0x3C, .function, .none, none⟩,
    ⟨2, 0, 0x3D, .function, .none, none⟩,
    ⟨3, 0, 0x3E, .function, .none, none⟩,
    ⟨4, 0, 0x3F, .function, .none, none⟩,
    ⟨5, 0, 0x40, .function, .none, none⟩,
    ⟨6, 0, 0x41, .function, .none, none⟩,
    ⟨7, 0, 0x42, .function, .none, none⟩,
    ⟨8, 0, 0x43, .function, .none, none⟩,
    ⟨9, 0, 0x44, .function, .none, none⟩,
    ⟨10, 0, 0x57, .function, .none, none⟩,
    ⟨11, 0, 0x58, .function, .none, none⟩,
    undefinedKey ]

/-- `special_keys`. -/
def specialKeys : List TableKey :=
  [ ⟨0, 0, 0x0E, .special, .backspace, none⟩,
    ⟨0, 0, 0x1C, .special, .enter, none⟩,
    ⟨0, 0, 0x01, .special, .escape, none⟩,
    undefinedKey ]

/-- `azerty_layout`. -/
def azertyLayout : List TableKey :=
  [ ⟨0x26, 0x31, 0x02, .alphanumeric, .topKey, none⟩,
    ⟨0x65, 0x32, 0x03, .alphanumeric, .topKey, none⟩,
    ⟨0x22, 0x33, 0x04, .alphanumeric, .topKey, none⟩,
    ⟨0x27, 0x34, 0x05, .alphanumeric, .topKey, none⟩,
    ⟨0x28, 0x35, 0x06, .alphanumeric, .topKey, none⟩,
    ⟨0x2D, 0x36, 0x07, .alphanumeric, .topKey, none⟩,
    ⟨0x65, 0x37, 0x08, .alphanumeric, .topKey, none⟩,
    ⟨0x5F, 0x38, 0x09, .alphanumeric, .topKey, none⟩,
    ⟨0x63, 0x39, 0x0A, .alphanumeric, .topKey, none⟩,
    ⟨0x61, 0x30, 0x0B, .alphanumeric, .topKey, none⟩,
    ⟨0x61, 0x41, 0x10, .alphanumeric, .letter, none⟩,
    ⟨0x7A, 0x5A, 0x11, .alphanumeric, .letter, none⟩,
    ⟨0x71, 0x51, 0x1E, .alphanumeric, .letter, none⟩,
    ⟨0x6D, 0x4D, 0x27, .alphanumeric, .letter, none⟩,
    ⟨0x77, 0x57, 0x2C, .alphanumeric, .letter, none⟩,
    ⟨0x2C, 0x3F, 0x32, .alphanumeric, .punctuation, none⟩,
    ⟨0x3B, 0x2E, 0x33, .alphanumeric, .punctuation, none⟩,
    ⟨0x3A, 0x2F, 0x34, .alphanumeric, .punctuation, none⟩,
    ⟨0x21, 0x21, 0x35, .alphanumeric, .punctuation, none⟩,
    undefinedKey ]

/-! ## Handlers -/

/-- The handlers of `keyboard.c`. -/
inductive KeyHandler where
  | printable
  | press
  | release
  | toggle
  | navigation
  | function
  | enter
  | escape
  | backspace
  deriving DecidableEq, Repr

/-- `keyboard_get_control_handler`. -/
def keyboardGetControlHandler : Undergroup → Option KeyHandler
  | .press => some .press
  | .release => some .release
  | .toggle => some .toggle
  | _ => none

/-- `keyboard_get_special_handler`. -/
def keyboardGetSpecialHandler : Undergroup → Option KeyHandler
  | .enter => some .enter
  | .escape => some .escape
  | .backspace => some .backspace
  | _ => none

/-- `keyboard_get_default_key_handler`. -/
def keyboardGetDefaultKeyHandler (key : TableKey) : Option KeyHandler :=
  match key.category with
  | .alphanumeric => some .printable
  | .navigation => some .navigation
  | .function => some .function
  | .control => keyboardGetControlHandler key.undergroup
  | .special => keyboardGetSpecialHandler key.undergroup

/-- `struct scancode_routine`. -/
structure ScancodeRoutine where
  key : TableKey
  handler : Option KeyHandler
  deriving DecidableEq, Repr

/-- `UNDEFINED_ROUTINE`. -/
def undefinedRoutine : ScancodeRoutine := ⟨undefinedKey, none⟩

/-- `current_layout`. -/
abbrev Layout := UInt8 → ScancodeRoutine

/-! ## Binding -/

/-- `keyboard_bind_key`; `current_layout` has 256 places. -/
def keyboardBindKey (handler : Option KeyHandler) (key : TableKey) (layout : Layout) : Kern Layout :=
  if key.keycode.toNat < 256 then
    .ok (Function.update layout key.keycode.toUInt8 ⟨key, handler⟩)
  else .error .fault

/-- A key with its handler. -/
def bindDefault (key : TableKey) (layout : Layout) : Kern Layout :=
  keyboardBindKey (keyboardGetDefaultKeyHandler key) key layout

/-- `for (i = 0; table[i].keycode != UNDEFINED; i++)`. -/
def remapUntilUndefined : List TableKey → Layout → Kern Layout
  | [], _ => .error .fault
  | key :: table, layout =>
    if key.keycode = 0 then .ok layout
    else do
      let layout ← bindDefault key layout
      remapUntilUndefined table layout

/-- `for (i = 0; i <= size; i++)`. -/
def remapSized (table : List TableKey) (size : ℕ) (layout : Layout) : Kern Layout :=
  (List.range (size + 1)).foldlM (fun layout i =>
    match table[i]? with
    | none => .error .fault
    | some key => if key.keycode ≠ 0 then bindDefault key layout else .ok layout) layout

/-- `keyboard_remap_layout`; a size of 0 is `STOP_WHEN_UNDEFINED`. -/
def keyboardRemapLayout (table : List TableKey) (size : ℕ) (layout : Layout) : Kern Layout :=
  if size = 0 then remapUntilUndefined table layout else remapSized table size layout

/-- The inner loop of `keyboard_init_default_table`. -/
def initGroup : List TableKey → (UInt8 → TableKey) → Kern (UInt8 → TableKey)
  | [], _ => .error .fault
  | key :: group, table =>
    if key.keycode = 0 then .ok table
    else initGroup group (Function.update table key.keycode.toUInt8 key)

/-- `keyboard_init_default_table`: `default_key_table`, which is zero before. -/
def keyboardInitDefaultTable : Kern (UInt8 → TableKey) :=
  [printableKeys, controlKeys, navigationKeys, functionKeys, specialKeys].foldlM
    (fun table group => initGroup group table) fun _ => undefinedKey

/-- An array of 256 keys. -/
def keyArray (table : UInt8 → TableKey) : List TableKey := (List.range 256).map fun i => table i.toUInt8

/-- `keyboard_init`. -/
def keyboardInit : Kern Layout := do
  let defaultKeyTable ← keyboardInitDefaultTable
  keyboardRemapLayout (keyArray defaultKeyTable) 0xFF fun _ => undefinedRoutine -- KEY_MAX

/-- `enum layout`. -/
inductive LayoutType where
  | qwerty
  | azerty
  deriving DecidableEq, Repr

/-- `keyboard_switch_layout`. -/
def keyboardSwitchLayout (newLayout : LayoutType) (current : LayoutType × Layout) :
    Kern (LayoutType × Layout) :=
  if current.1 = newLayout then .ok current
  else do
    let layout ← match newLayout with
      | .qwerty => do
        let defaultKeyTable ← keyboardInitDefaultTable
        keyboardRemapLayout (keyArray defaultKeyTable) 0xFF current.2
      | .azerty => keyboardRemapLayout azertyLayout 0 current.2 -- STOP_WHEN_UNDEFINED
    .ok (newLayout, layout)

/-! ## Tables laid over a layout -/

/-- The key and its handler. -/
def routineOf (key : TableKey) : ScancodeRoutine := ⟨key, keyboardGetDefaultKeyHandler key⟩

/-- The keys of a table laid over a layout. -/
def bound (keys : List TableKey) (layout : Layout) : Layout :=
  keys.foldl (fun layout key => Function.update layout key.keycode.toUInt8 (routineOf key)) layout

/-- The keys by their code; of two with the same code the later one. -/
def indexed (keys : List TableKey) (table : UInt8 → TableKey) : UInt8 → TableKey :=
  keys.foldl (fun table key => Function.update table key.keycode.toUInt8 key) table

/-- The code of the key is one of a place of the array, and not `UNDEFINED`. -/
def TableKey.Bindable (key : TableKey) : Prop := key.keycode ≠ 0 ∧ key.keycode.toNat < 256

instance (key : TableKey) : Decidable key.Bindable := inferInstanceAs (Decidable (_ ∧ _))

variable {keys : List TableKey} {table : UInt8 → TableKey} {layout : Layout}

theorem bindDefault_eq {key : TableKey} (h : key.Bindable) (layout : Layout) :
    bindDefault key layout = .ok (Function.update layout key.keycode.toUInt8 (routineOf key)) :=
  if_pos h.2

theorem remapUntilUndefined_eq (h : ∀ key ∈ keys, key.Bindable) (layout : Layout) :
    remapUntilUndefined (keys ++ [undefinedKey]) layout = .ok (bound keys layout) := by
  induction keys generalizing layout with
  | nil => rfl
  | cons key keys ih =>
    have hkey := h key List.mem_cons_self
    rw [List.cons_append, remapUntilUndefined, if_neg hkey.1, bindDefault_eq hkey, ok_bind]
    exact ih (fun key' hmem => h key' (List.mem_cons_of_mem key hmem)) _

theorem initGroup_eq (h : ∀ key ∈ keys, key.Bindable) (table : UInt8 → TableKey) :
    initGroup (keys ++ [undefinedKey]) table = .ok (indexed keys table) := by
  induction keys generalizing table with
  | nil => rfl
  | cons key keys ih =>
    have hkey := h key List.mem_cons_self
    rw [List.cons_append, initGroup, if_neg hkey.1]
    exact ih (fun key' hmem => h key' (List.mem_cons_of_mem key hmem)) _

/-- What is bound is a key of the table, or was bound before. -/
theorem bound_apply (keys : List TableKey) (layout : Layout) (code : UInt8) :
    (∃ key ∈ keys, key.keycode.toUInt8 = code ∧ bound keys layout code = routineOf key) ∨
      bound keys layout code = layout code := by
  induction keys generalizing layout with
  | nil => exact .inr rfl
  | cons key keys ih =>
    cases ih (Function.update layout key.keycode.toUInt8 (routineOf key)) with
    | inl hlater =>
      obtain ⟨key', hmem, hcode, hbound⟩ := hlater
      exact .inl ⟨key', List.mem_cons_of_mem key hmem, hcode, hbound⟩
    | inr hbefore =>
      by_cases hcode : key.keycode.toUInt8 = code
      · subst hcode
        rw [Function.update_self] at hbefore
        exact .inl ⟨key, List.mem_cons_self, rfl, hbefore⟩
      · rw [Function.update_of_ne (Ne.symm hcode)] at hbefore
        exact .inr hbefore

/-- A place of the array is undefined or holds a key with its number. -/
structure Numbered (keys : List TableKey) (table : UInt8 → TableKey) : Prop where
  place : ∀ code, table code = undefinedKey ∨
    (table code ∈ keys ∧ (table code).Bindable ∧ (table code).keycode.toUInt8 = code)

theorem indexed_numbered (all : List TableKey) (h : ∀ key ∈ keys, key ∈ all ∧ key.Bindable)
    (htable : Numbered all table) : Numbered all (indexed keys table) := by
  induction keys generalizing table with
  | nil => exact htable
  | cons key keys ih =>
    have hkey := h key List.mem_cons_self
    refine ih (fun key' hmem => h key' (List.mem_cons_of_mem key hmem)) ⟨fun code => ?_⟩
    dsimp only
    by_cases hcode : code = key.keycode.toUInt8
    · subst hcode
      rw [Function.update_self]
      exact .inr ⟨hkey.1, hkey.2, rfl⟩
    · rw [Function.update_of_ne hcode]
      exact htable.place code

/-- An array of keys laid over a layout. -/
def boundArray (table : UInt8 → TableKey) (layout : Layout) : Layout := fun code =>
  if (table code).keycode ≠ 0 then routineOf (table code) else layout code

/-- **Loop** over the array: each turn binds the key of its place, if there is one. -/
theorem remapSized_eq (h : Numbered keys table) (layout : Layout) :
    remapSized (keyArray table) 0xFF layout = .ok (boundArray table layout) := by
  have hloop : ∀ n ≤ 256, (List.range n).foldlM (fun layout i =>
      match (keyArray table)[i]? with
      | none => .error .fault
      | some key => if key.keycode ≠ 0 then bindDefault key layout else .ok layout) layout =
        (.ok fun code => if code.toNat < n then boundArray table layout code else layout code :
          Kern Layout) := by
    intro n hn
    induction n with
    | zero => rfl
    | succ n ih =>
      have hplace : (keyArray table)[n]? = some (table n.toUInt8) := by
        unfold keyArray
        rw [List.getElem?_map, List.getElem?_range (by omega)]
        rfl
      have hnat : (n.toUInt8).toNat = n := by
        show n % 256 = n
        omega
      rw [List.range_succ, foldlM_snoc, ih (by omega), ok_bind, hplace]
      dsimp only
      by_cases hkey : (table n.toUInt8).keycode ≠ 0
      · have hbind : (table n.toUInt8).Bindable ∧ (table n.toUInt8).keycode.toUInt8 = n.toUInt8 := by
          cases h.place n.toUInt8 with
          | inl hundefined => exact absurd (congrArg TableKey.keycode hundefined) hkey
          | inr hkey => exact hkey.2
        rw [if_pos hkey, bindDefault_eq hbind.1, hbind.2]
        refine congrArg Except.ok (funext fun code => ?_)
        by_cases hcode : code = n.toUInt8
        · subst hcode
          rw [Function.update_self, hnat, if_pos (Nat.lt_succ_self n), boundArray, if_pos hkey]
        · have hne : code.toNat ≠ n := fun hn' => hcode (UInt8.toNat_inj.mp (hn'.trans hnat.symm))
          rw [Function.update_of_ne hcode]
          exact if_congr (by omega) rfl rfl
      · rw [if_neg hkey]
        refine congrArg Except.ok (funext fun code => ?_)
        by_cases hcode : code = n.toUInt8
        · subst hcode
          rw [hnat, if_neg (Nat.lt_irrefl n), if_pos (Nat.lt_succ_self n), boundArray, if_neg hkey]
        · have hne : code.toNat ≠ n := fun hn' => hcode (UInt8.toNat_inj.mp (hn'.trans hnat.symm))
          exact if_congr (by omega) rfl rfl
  unfold remapSized
  rw [hloop 256 (Nat.le_refl 256)]
  refine congrArg Except.ok (funext fun code => ?_)
  exact if_pos (UInt8.toNat_lt code)

/-! ## The two layouts -/

/-- The keys of the five groups. -/
def defaultKeys : List TableKey :=
  printableKeys.dropLast ++ controlKeys.dropLast ++ navigationKeys.dropLast ++
    functionKeys.dropLast ++ specialKeys.dropLast

/-- `default_key_table`. -/
def defaultKeyTable : UInt8 → TableKey := indexed defaultKeys fun _ => undefinedKey

/-- The keys that differ in the other layout. -/
def azertyKeys : List TableKey := azertyLayout.dropLast

theorem defaultKeys_bindable : ∀ key ∈ defaultKeys, key.Bindable := by decide

theorem azertyKeys_bindable : ∀ key ∈ azertyKeys, key.Bindable := by decide

theorem keyboardInitDefaultTable_eq : keyboardInitDefaultTable = .ok defaultKeyTable := by
  have hgroup : ∀ group ∈ [printableKeys, controlKeys, navigationKeys, functionKeys, specialKeys],
      group = group.dropLast ++ [undefinedKey] ∧ ∀ key ∈ group.dropLast, key.Bindable := by decide
  have hloop : ∀ table, ∀ group ∈ [printableKeys, controlKeys, navigationKeys, functionKeys,
      specialKeys], initGroup group table = .ok (indexed group.dropLast table) := by
    intro table group hmem
    obtain ⟨heq, hbindable⟩ := hgroup group hmem
    rw [heq, initGroup_eq hbindable, List.dropLast_concat]
  unfold keyboardInitDefaultTable
  simp only [List.foldlM_cons, List.foldlM_nil]
  rw [hloop _ _ (by simp), ok_bind, hloop _ _ (by simp), ok_bind, hloop _ _ (by simp), ok_bind,
    hloop _ _ (by simp), ok_bind, hloop _ _ (by simp), ok_bind]
  unfold defaultKeyTable defaultKeys indexed
  simp only [List.foldl_append]
  rfl

theorem defaultKeyTable_numbered : Numbered defaultKeys defaultKeyTable :=
  indexed_numbered defaultKeys (fun key hkey => ⟨hkey, defaultKeys_bindable key hkey⟩)
    ⟨fun _ => .inl rfl⟩

/-- What is bound in each layout. -/
def layoutOf : LayoutType → Layout
  | .qwerty => boundArray defaultKeyTable fun _ => undefinedRoutine
  | .azerty => bound azertyKeys (boundArray defaultKeyTable fun _ => undefinedRoutine)

theorem layoutOf_qwerty (code : UInt8) : layoutOf .qwerty code =
    if (defaultKeyTable code).keycode ≠ 0 then routineOf (defaultKeyTable code)
    else undefinedRoutine := rfl

theorem keyboardInit_eq : keyboardInit = .ok (layoutOf .qwerty) := by
  unfold keyboardInit
  rw [keyboardInitDefaultTable_eq, ok_bind]
  exact remapSized_eq defaultKeyTable_numbered _

/-- Every key of the other layout has a place in the default one. -/
theorem azertyKeys_default : ∀ key ∈ azertyKeys, (defaultKeyTable key.keycode.toUInt8).keycode ≠ 0 := by
  decide

/-- **Step**: a switch leads from one layout to the other. -/
theorem keyboardSwitchLayout_eq (newLayout old : LayoutType) :
    keyboardSwitchLayout newLayout (old, layoutOf old) = .ok (newLayout, layoutOf newLayout) := by
  cases newLayout with
  | qwerty =>
    cases old with
    | qwerty => rfl
    | azerty =>
      show (do
        let table ← keyboardInitDefaultTable
        let layout ← keyboardRemapLayout (keyArray table) 0xFF (layoutOf .azerty)
        .ok (LayoutType.qwerty, layout)) = _
      rw [keyboardInitDefaultTable_eq, ok_bind]
      have hremap : keyboardRemapLayout (keyArray defaultKeyTable) 0xFF (layoutOf .azerty) = _ :=
        remapSized_eq defaultKeyTable_numbered _
      rw [hremap, ok_bind]
      refine congrArg (fun layout => Except.ok (LayoutType.qwerty, layout)) (funext fun code => ?_)
      -- Where the default table is undefined, the other layout has not bound anything.
      by_cases hkey : (defaultKeyTable code).keycode ≠ 0
      · rw [layoutOf_qwerty, boundArray, if_pos hkey, if_pos hkey]
      · have hsame : layoutOf .azerty code = layoutOf .qwerty code := by
          cases bound_apply azertyKeys (layoutOf .qwerty) code with
          | inl hbound =>
            obtain ⟨key, hmem, hcode, -⟩ := hbound
            exact absurd (hcode ▸ azertyKeys_default key hmem) hkey
          | inr hbefore => exact hbefore
        rw [boundArray, if_neg hkey, hsame]
  | azerty =>
    cases old with
    | qwerty =>
      have htable : azertyLayout = azertyKeys ++ [undefinedKey] := by decide
      have hremap : keyboardRemapLayout azertyLayout 0 (layoutOf .qwerty) =
          .ok (layoutOf .azerty) := by
        rw [htable]
        exact remapUntilUndefined_eq azertyKeys_bindable _
      show (keyboardRemapLayout azertyLayout 0 (layoutOf .qwerty) >>= fun layout =>
        .ok (LayoutType.azerty, layout)) = _
      rw [hremap, ok_bind]
    | azerty => rfl

/-- **Run**: what is bound depends on the last layout only. -/
theorem switch_runs (newLayouts : List LayoutType) :
    (do
      let layout ← keyboardInit
      newLayouts.foldlM (fun current newLayout => keyboardSwitchLayout newLayout current)
        (LayoutType.qwerty, layout)) =
      .ok (newLayouts.getLastD .qwerty, layoutOf (newLayouts.getLastD .qwerty)) := by
  rw [keyboardInit_eq, ok_bind]
  induction newLayouts using List.reverseRecOn with
  | nil => rfl
  | append_singleton newLayouts newLayout ih =>
    rw [foldlM_snoc, ih, ok_bind, keyboardSwitchLayout_eq, List.getLastD_concat]

/-! ## Keys that can be pressed -/

/-- The handlers of the key find what they use: a navigation key has the flag of num lock, and the
number of a function key is one of a terminal. -/
structure TableKey.Usable (key : TableKey) : Prop where
  statePtr : key.category = .navigation → key.statePtr = some .numLock
  terminal : key.category = .function → key.value.toNat < 12

theorem keys_usable : ∀ key ∈ defaultKeys ++ azertyKeys, key.Usable := by
  have hall : ∀ key ∈ defaultKeys ++ azertyKeys,
      (key.category = .navigation → key.statePtr = some .numLock) ∧
        (key.category = .function → key.value.toNat < 12) := by decide
  exact fun key hkey => ⟨(hall key hkey).1, (hall key hkey).2⟩

/-- Every key that is bound is one of the tables, with the handler of its kind. -/
theorem layoutOf_apply (layoutType : LayoutType) (code : UInt8) :
    layoutOf layoutType code = undefinedRoutine ∨
      ∃ key, key.Usable ∧ layoutOf layoutType code = routineOf key := by
  have hdefault : layoutOf .qwerty code = undefinedRoutine ∨
      ∃ key, key.Usable ∧ layoutOf .qwerty code = routineOf key := by
    rw [layoutOf_qwerty]
    split_ifs with hkey
    · cases defaultKeyTable_numbered.place code with
      | inl hundefined => exact absurd (congrArg TableKey.keycode hundefined) hkey
      | inr hplace =>
        exact .inr ⟨_, keys_usable _ (List.mem_append_left _ hplace.1), rfl⟩
    · exact .inl rfl
  cases layoutType with
  | qwerty => exact hdefault
  | azerty =>
    cases bound_apply azertyKeys (layoutOf .qwerty) code with
    | inl hbound =>
      obtain ⟨key, hmem, -, hroutine⟩ := hbound
      exact .inr ⟨key, keys_usable key (List.mem_append_right _ hmem), hroutine⟩
    | inr hbefore =>
      have hsame : layoutOf .azerty code = layoutOf .qwerty code := hbefore
      rw [hsame]
      exact hdefault

end Kfs.Drivers
