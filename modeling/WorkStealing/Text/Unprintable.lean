import WorkStealing.Text.AttachedMark
import WorkStealing.Text.Unassigned

set_option autoImplicit false

/-!
# Unprintable characters

Characters that show nothing by themselves: controls, format characters, every separator but the
space, private-use and unassigned code points, marks that attach to the character before, and
characters that a display leaves out.
-/
namespace WorkStealing.Text

/-- The Unicode general categories `Cc`, `Cf`, `Zs`, `Zl`, `Zp` and `Co`, without the space. -/
def blanksAndControls : CodePoints :=
  [(0x0, 0x1f), (0x7f, 0xa0), (0xad, 0xad), (0x600, 0x605), (0x61c, 0x61c), (0x6dd, 0x6dd),
   (0x70f, 0x70f), (0x890, 0x891), (0x8e2, 0x8e2), (0x1680, 0x1680), (0x180e, 0x180e),
   (0x2000, 0x200f), (0x2028, 0x202f), (0x205f, 0x2064), (0x2066, 0x206f), (0x3000, 0x3000),
   (0xe000, 0xf8ff), (0xfeff, 0xfeff), (0xfff9, 0xfffb), (0x110bd, 0x110bd), (0x110cd, 0x110cd),
   (0x13430, 0x1343f), (0x1bca0, 0x1bca3), (0x1d173, 0x1d17a), (0xe0001, 0xe0001),
   (0xe0020, 0xe007f), (0xf0000, 0xffffd), (0x100000, 0x10fffd)]

/-- The Unicode property `Default_Ignorable_Code_Point`. The Hangul fillers are its only letters. -/
def ignorables : CodePoints :=
  [(0xad, 0xad), (0x34f, 0x34f), (0x61c, 0x61c), (0x115f, 0x1160), (0x17b4, 0x17b5),
   (0x180b, 0x180f), (0x200b, 0x200f), (0x202a, 0x202e), (0x2060, 0x206f), (0x3164, 0x3164),
   (0xfe00, 0xfe0f), (0xfeff, 0xfeff), (0xffa0, 0xffa0), (0xfff0, 0xfff8), (0x1bca0, 0x1bca3),
   (0x1d173, 0x1d17a), (0xe0000, 0xe0fff)]

def isUnprintable (c : Char) : Bool :=
  blanksAndControls.contains c || attachedMarks.contains c || unassigned.contains c ||
    ignorables.contains c

end WorkStealing.Text
