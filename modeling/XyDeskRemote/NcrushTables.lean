/-
# The code tables of NCRUSH

The tables of `ncrush.c`.  A literal, the end and the copy offsets share one Huffman code, `LEC`,
and the lengths of matches have another, `LOM`; for each there is a table by code word for the
decoder, and one by symbol for the encoder.  Two tables say how many bits follow a symbol, and
from which value they count.
-/
import Mathlib.Data.List.GetD
import XyDeskRemote.LsbBits

open List Nat

namespace Ncrush

/-! ## The tables -/

/-- An entry of a table of 16-bit numbers; the table is written in rows of sixteen, the first one
highest. -/
def tableEntry (rows : List ℕ) (index : ℕ) : ℕ :=
  (rows.foldl (fun table row => table <<< 256 ||| row) 0) >>> (16 * (16 * rows.length - 1 - index))
    % 2 ^ 16

/-- `HuffTableLEC`: by the thirteen bits in front, four bits of length and the symbol.  Of every 64
rows only the last one has codes of more than ten bits; the other 63 are the same each time. -/
def huffTableLECRows : List ℕ :=
  let rows := [
    0x510B611F610D9027600071056117A06851117007611390C061088018611BA0B3,
    0x510F7003611090426002800B6119A091512170806115A03A610A9012611DA0D7,
    0x510B6122610E9035600171236118A07A51117009611490F461098060611CA0C4,
    0x510F7005611290706107800F611AA0A1512171026116A056610C901D611EA0E8,
    0x510B611F610D902C600071066117A07151117008611390E061088020611BA0BB,
    0x510F7004611090496002800D6119A099512170FF6115A04C610A9017611DA0DF,
    0x510B6122610E903C600171246118A0875111700A6114A023610980FE611CA0CE,
    0x510F70066112908261078011611AA0A9512171036116A05F610C9022611EA0F5,
    0x510B611F610D9029600071056117A06C51117007611390CC61088019611BA0B7,
    0x510F7003611090446002800C6119A095512170806115A046610A9015611DA0DB,
    0x510B6122610E9038600171236118A07E51117009611490FC610980F0611CA0C9,
    0x510F70056112907F61078010611AA0A5512171026116A05B610C901F611EA0EC,
    0x510B611F610D9031600071066117A07551117008611390F161088040611BA0BF,
    0x510F7004611090516002800E6119A09D512170FF6115A052610A901B611DA0E4,
    0x510B6122610E903F600171246118A08C5111700A6114A02F61098120611CA0D3,
    0x510F70066112908861078013611AA0AE512171036116A064610C9025611EA0FA,
    0x510B611F610D9028600071056117A06A51117007611390C661088018611BA0B5,
    0x510F7003611090436002800B6119A093512170806115A03D610A9014611DA0D9,
    0x510B6122610E9037600171236118A07C51117009611490F861098060611CA0C7,
    0x510F7005611290786107800F611AA0A3512171026116A058610C901E611EA0EA,
    0x510B611F610D9030600071066117A07351117008611390EE61088020611BA0BD,
    0x510F7004611090506002800D6119A09B512170FF6115A04E610A901A611DA0E2,
    0x510B6122610E903E600171246118A08A5111700A6114A02D610980FE611CA0D1,
    0x510F70066112908461078011611AA0AC512171036116A062610C9024611EA0F7,
    0x510B611F610D902A600071056117A06E51117007611390D061088019611BA0B9,
    0x510F7003611090486002800C6119A097512170806115A04A610A9016611DA0DD,
    0x510B6122610E9039600171236118A08551117009611490FD610980F0611CA0CB,
    0x510F70056112908161078010611AA0A7512171026116A05D610C9021611EA0EF,
    0x510B611F610D9033600071066117A07751117008611390F261088040611BA0C2,
    0x510F7004611090596002800E6119A09F512170FF6115A054610A901C611DA0E6,
    0x510B6122610E9041600171246118A08E5111700A6114A03461098120611CA0D5,
    0x510F70066112909061078013611AA0B0512171036116A066610C9026611EA104,
    0x510B611F610D9027600071056117A06951117007611390C061088018611BA0B4,
    0x510F7003611090426002800B6119A092512170806115A03B610A9012611DA0D8,
    0x510B6122610E9035600171236118A07B51117009611490F461098060611CA0C5,
    0x510F7005611290706107800F611AA0A2512171026116A057610C901D611EA0E9,
    0x510B611F610D902C600071066117A07251117008611390E061088020611BA0BC,
    0x510F7004611090496002800D6119A09A512170FF6115A04D610A9017611DA0E1,
    0x510B6122610E903C600171246118A0895111700A6114A02B610980FE611CA0CF,
    0x510F70066112908261078011611AA0AA512171036116A061610C9022611EA0F6,
    0x510B611F610D9029600071056117A06D51117007611390CC61088019611BA0B8,
    0x510F7003611090446002800C6119A096512170806115A047610A9015611DA0DC,
    0x510B6122610E9038600171236118A08351117009611490FC610980F0611CA0CA,
    0x510F70056112907F61078010611AA0A6512171026116A05C610C901F611EA0ED,
    0x510B611F610D9031600071066117A07651117008611390F161088040611BA0C1,
    0x510F7004611090516002800E6119A09E512170FF6115A053610A901B611DA0E5,
    0x510B6122610E903F600171246118A08D5111700A6114A03261098120611CA0D4,
    0x510F70066112908861078013611AA0AF512171036116A065610C9025611EA0FB,
    0x510B611F610D9028600071056117A06B51117007611390C661088018611BA0B6,
    0x510F7003611090436002800B6119A094512170806115A045610A9014611DA0DA,
    0x510B6122610E9037600171236118A07D51117009611490F861098060611CA0C8,
    0x510F7005611290786107800F611AA0A4512171026116A05A610C901E611EA0EB,
    0x510B611F610D9030600071066117A07451117008611390EE61088020611BA0BE,
    0x510F7004611090506002800D6119A09C512170FF6115A04F610A901A611DA0E3,
    0x510B6122610E903E600171246118A08B5111700A6114A02E610980FE611CA0D2,
    0x510F70066112908461078011611AA0AD512171036116A063610C9024611EA0F9,
    0x510B611F610D902A600071056117A06F51117007611390D061088019611BA0BA,
    0x510F7003611090486002800C6119A098512170806115A04B610A9016611DA0DE,
    0x510B6122610E9039600171236118A08651117009611490FD610980F0611CA0CD,
    0x510F70056112908161078010611AA0A8512171026116A05E610C9021611EA0F3,
    0x510B611F610D9033600071066117A07951117008611390F261088040611BA0C3,
    0x510F7004611090596002800E6119A0A0512170FF6115A055610A901C611DA0E7,
    0x510B6122610E9041600171246118A08F5111700A6114A03661098120611CA0D6]
  let lastRows := [
    0x510F70066112909061078013611AA0B1512171036116A067610C9026611EB0B2,
    0x510F70066112909061078013611AA0B1512171036116A067610C9026611ED0AB,
    0x510F70066112909061078013611AA0B1512171036116A067610C9026611EB0B2,
    0x510F70066112909061078013611AA0B1512171036116A067610C9026611ED101,
    0x510F70066112909061078013611AA0B1512171036116A067610C9026611EB0B2,
    0x510F70066112909061078013611AA0B1512171036116A067610C9026611ED100,
    0x510F70066112909061078013611AA0B1512171036116A067610C9026611EB0B2,
    0x510F70066112909061078013611AA0B1512171036116A067610C9026611ED125]
  lastRows.flatMap fun lastRow => rows ++ [lastRow]

/-- An entry of `HuffTableLEC`. -/
def huffTableLEC (index : ℕ) : ℕ := tableEntry huffTableLECRows index

/-- `HuffTableLOM`: the same for lengths, by nine bits. -/
def huffTableLOMRows : List ℕ :=
  [0x2001400030024008200140053004500A2001400330025007200140063004700D,
   0x2001400030024008200140053004600B20014003300250092001400630048012,
   0x2001400030024008200140053004500A20014003300250072001400630047010,
   0x2001400030024008200140053004600C20014003300250092001400630049018,
   0x2001400030024008200140053004500A2001400330025007200140063004700E,
   0x2001400030024008200140053004600B20014003300250092001400630049013,
   0x2001400030024008200140053004500A2001400330025007200140063004800F,
   0x2001400030024008200140053004600C2001400330025009200140063004901C,
   0x2001400030024008200140053004500A2001400330025007200140063004700D,
   0x2001400030024008200140053004600B20014003300250092001400630048015,
   0x2001400030024008200140053004500A20014003300250072001400630047010,
   0x2001400030024008200140053004600C2001400330025009200140063004901A,
   0x2001400030024008200140053004500A2001400330025007200140063004700E,
   0x2001400030024008200140053004600B20014003300250092001400630049016,
   0x2001400030024008200140053004500A20014003300250072001400630048011,
   0x2001400030024008200140053004600C2001400330025009200140063004901E,
   0x2001400030024008200140053004500A2001400330025007200140063004700D,
   0x2001400030024008200140053004600B20014003300250092001400630048012,
   0x2001400030024008200140053004500A20014003300250072001400630047010,
   0x2001400030024008200140053004600C20014003300250092001400630049019,
   0x2001400030024008200140053004500A2001400330025007200140063004700E,
   0x2001400030024008200140053004600B20014003300250092001400630049014,
   0x2001400030024008200140053004500A2001400330025007200140063004800F,
   0x2001400030024008200140053004600C2001400330025009200140063004901D,
   0x2001400030024008200140053004500A2001400330025007200140063004700D,
   0x2001400030024008200140053004600B20014003300250092001400630048015,
   0x2001400030024008200140053004500A20014003300250072001400630047010,
   0x2001400030024008200140053004600C2001400330025009200140063004901B,
   0x2001400030024008200140053004500A2001400330025007200140063004700E,
   0x2001400030024008200140053004600B20014003300250092001400630049017,
   0x2001400030024008200140053004500A20014003300250072001400630048011,
   0x2001400030024008200140053004600C2001400330025009200140063004901F]

/-- An entry of `HuffTableLOM`. -/
def huffTableLOM (index : ℕ) : ℕ := tableEntry huffTableLOMRows index

/-- `HuffTableMask`, as bytes. -/
def huffTableMask : List ℕ :=
  [0x11, 0x9E, 0xA1, 0x00, 0x00, 0x01, 0x00, 0x03, 0x00, 0x07, 0x00, 0x0F, 0x00, 0x1F, 0x00,
   0x3F, 0x00, 0x7F, 0x00, 0xFF, 0x00, 0xFF, 0x01, 0xFF, 0x03, 0xFF, 0x07, 0xFF, 0x0F, 0xFF,
   0x1F, 0xFF, 0x3F, 0xFF, 0x7F, 0xFF, 0xFF, 0x00, 0x00]

/-- `HuffLengthLEC`. -/
def huffLengthLEC : List ℕ :=
  [6, 6, 6, 7, 7, 7, 7, 7, 7, 7, 7, 8, 8, 8, 8, 8, 8, 8, 9, 8, 9, 9, 9, 9,
   8, 8, 9, 9, 9, 9, 9, 9, 8, 9, 9, 10, 9, 9, 9, 9, 9, 9, 9, 10, 9, 10, 10, 10,
   9, 9, 10, 9, 10, 9, 10, 9, 9, 9, 10, 10, 9, 10, 9, 9, 8, 9, 9, 9, 9, 10, 10, 10,
   9, 9, 10, 10, 10, 10, 10, 10, 9, 9, 10, 10, 10, 10, 10, 10, 10, 9, 10, 10, 10, 10, 10, 10,
   8, 10, 10, 10, 10, 10, 10, 10, 10, 10, 10, 10, 10, 10, 10, 10, 9, 10, 10, 10, 10, 10, 10, 10,
   9, 10, 10, 10, 10, 10, 10, 9, 7, 9, 9, 10, 9, 10, 10, 10, 9, 10, 10, 10, 10, 10, 10, 10,
   9, 10, 10, 10, 10, 10, 10, 10, 10, 10, 10, 10, 10, 10, 10, 10, 10, 10, 10, 10, 10, 10, 10, 10,
   10, 10, 10, 13, 10, 10, 10, 10, 10, 10, 11, 10, 10, 10, 10, 10, 10, 10, 10, 10, 10, 10, 10, 10,
   9, 10, 10, 10, 10, 10, 9, 10, 10, 10, 10, 10, 9, 10, 10, 10, 9, 10, 10, 10, 10, 10, 10, 10,
   10, 10, 10, 10, 10, 10, 10, 10, 9, 10, 10, 10, 10, 10, 10, 10, 10, 10, 10, 10, 10, 10, 9, 10,
   8, 9, 9, 10, 9, 10, 10, 10, 9, 10, 10, 10, 9, 9, 8, 7, 13, 13, 7, 7, 10, 7, 7, 6,
   6, 6, 6, 5, 6, 6, 6, 5, 6, 5, 6, 6, 6, 6, 6, 6, 6, 6, 6, 6, 6, 6, 6, 6,
   8, 5, 6, 7, 7, 13]

/-- `HuffCodeLEC`, as bytes. -/
def huffCodeLEC : List ℕ :=
  [0x04, 0x00, 0x24, 0x00, 0x14, 0x00, 0x11, 0x00, 0x51, 0x00, 0x31, 0x00, 0x71, 0x00, 0x09,
   0x00, 0x49, 0x00, 0x29, 0x00, 0x69, 0x00, 0x15, 0x00, 0x95, 0x00, 0x55, 0x00, 0xD5, 0x00,
   0x35, 0x00, 0xB5, 0x00, 0x75, 0x00, 0x1D, 0x00, 0xF5, 0x00, 0x1D, 0x01, 0x9D, 0x00, 0x9D,
   0x01, 0x5D, 0x00, 0x0D, 0x00, 0x8D, 0x00, 0x5D, 0x01, 0xDD, 0x00, 0xDD, 0x01, 0x3D, 0x00,
   0x3D, 0x01, 0xBD, 0x00, 0x4D, 0x00, 0xBD, 0x01, 0x7D, 0x00, 0x6B, 0x00, 0x7D, 0x01, 0xFD,
   0x00, 0xFD, 0x01, 0x03, 0x00, 0x03, 0x01, 0x83, 0x00, 0x83, 0x01, 0x6B, 0x02, 0x43, 0x00,
   0x6B, 0x01, 0x6B, 0x03, 0xEB, 0x00, 0x43, 0x01, 0xC3, 0x00, 0xEB, 0x02, 0xC3, 0x01, 0xEB,
   0x01, 0x23, 0x00, 0xEB, 0x03, 0x23, 0x01, 0xA3, 0x00, 0xA3, 0x01, 0x1B, 0x00, 0x1B, 0x02,
   0x63, 0x00, 0x1B, 0x01, 0x63, 0x01, 0xE3, 0x00, 0xCD, 0x00, 0xE3, 0x01, 0x13, 0x00, 0x13,
   0x01, 0x93, 0x00, 0x1B, 0x03, 0x9B, 0x00, 0x9B, 0x02, 0x93, 0x01, 0x53, 0x00, 0x9B, 0x01,
   0x9B, 0x03, 0x5B, 0x00, 0x5B, 0x02, 0x5B, 0x01, 0x5B, 0x03, 0x53, 0x01, 0xD3, 0x00, 0xDB,
   0x00, 0xDB, 0x02, 0xDB, 0x01, 0xDB, 0x03, 0x3B, 0x00, 0x3B, 0x02, 0x3B, 0x01, 0xD3, 0x01,
   0x3B, 0x03, 0xBB, 0x00, 0xBB, 0x02, 0xBB, 0x01, 0xBB, 0x03, 0x7B, 0x00, 0x2D, 0x00, 0x7B,
   0x02, 0x7B, 0x01, 0x7B, 0x03, 0xFB, 0x00, 0xFB, 0x02, 0xFB, 0x01, 0xFB, 0x03, 0x07, 0x00,
   0x07, 0x02, 0x07, 0x01, 0x07, 0x03, 0x87, 0x00, 0x87, 0x02, 0x87, 0x01, 0x87, 0x03, 0x33,
   0x00, 0x47, 0x00, 0x47, 0x02, 0x47, 0x01, 0x47, 0x03, 0xC7, 0x00, 0xC7, 0x02, 0xC7, 0x01,
   0x33, 0x01, 0xC7, 0x03, 0x27, 0x00, 0x27, 0x02, 0x27, 0x01, 0x27, 0x03, 0xA7, 0x00, 0xB3,
   0x00, 0x19, 0x00, 0xB3, 0x01, 0x73, 0x00, 0xA7, 0x02, 0x73, 0x01, 0xA7, 0x01, 0xA7, 0x03,
   0x67, 0x00, 0xF3, 0x00, 0x67, 0x02, 0x67, 0x01, 0x67, 0x03, 0xE7, 0x00, 0xE7, 0x02, 0xE7,
   0x01, 0xE7, 0x03, 0xF3, 0x01, 0x17, 0x00, 0x17, 0x02, 0x17, 0x01, 0x17, 0x03, 0x97, 0x00,
   0x97, 0x02, 0x97, 0x01, 0x97, 0x03, 0x57, 0x00, 0x57, 0x02, 0x57, 0x01, 0x57, 0x03, 0xD7,
   0x00, 0xD7, 0x02, 0xD7, 0x01, 0xD7, 0x03, 0x37, 0x00, 0x37, 0x02, 0x37, 0x01, 0x37, 0x03,
   0xB7, 0x00, 0xB7, 0x02, 0xB7, 0x01, 0xB7, 0x03, 0x77, 0x00, 0x77, 0x02, 0xFF, 0x07, 0x77,
   0x01, 0x77, 0x03, 0xF7, 0x00, 0xF7, 0x02, 0xF7, 0x01, 0xF7, 0x03, 0xFF, 0x03, 0x0F, 0x00,
   0x0F, 0x02, 0x0F, 0x01, 0x0F, 0x03, 0x8F, 0x00, 0x8F, 0x02, 0x8F, 0x01, 0x8F, 0x03, 0x4F,
   0x00, 0x4F, 0x02, 0x4F, 0x01, 0x4F, 0x03, 0xCF, 0x00, 0x0B, 0x00, 0xCF, 0x02, 0xCF, 0x01,
   0xCF, 0x03, 0x2F, 0x00, 0x2F, 0x02, 0x0B, 0x01, 0x2F, 0x01, 0x2F, 0x03, 0xAF, 0x00, 0xAF,
   0x02, 0xAF, 0x01, 0x8B, 0x00, 0xAF, 0x03, 0x6F, 0x00, 0x6F, 0x02, 0x8B, 0x01, 0x6F, 0x01,
   0x6F, 0x03, 0xEF, 0x00, 0xEF, 0x02, 0xEF, 0x01, 0xEF, 0x03, 0x1F, 0x00, 0x1F, 0x02, 0x1F,
   0x01, 0x1F, 0x03, 0x9F, 0x00, 0x9F, 0x02, 0x9F, 0x01, 0x9F, 0x03, 0x5F, 0x00, 0x4B, 0x00,
   0x5F, 0x02, 0x5F, 0x01, 0x5F, 0x03, 0xDF, 0x00, 0xDF, 0x02, 0xDF, 0x01, 0xDF, 0x03, 0x3F,
   0x00, 0x3F, 0x02, 0x3F, 0x01, 0x3F, 0x03, 0xBF, 0x00, 0xBF, 0x02, 0x4B, 0x01, 0xBF, 0x01,
   0xAD, 0x00, 0xCB, 0x00, 0xCB, 0x01, 0xBF, 0x03, 0x2B, 0x00, 0x7F, 0x00, 0x7F, 0x02, 0x7F,
   0x01, 0x2B, 0x01, 0x7F, 0x03, 0xFF, 0x00, 0xFF, 0x02, 0xAB, 0x00, 0xAB, 0x01, 0x6D, 0x00,
   0x59, 0x00, 0xFF, 0x17, 0xFF, 0x0F, 0x39, 0x00, 0x79, 0x00, 0xFF, 0x01, 0x05, 0x00, 0x45,
   0x00, 0x34, 0x00, 0x0C, 0x00, 0x2C, 0x00, 0x1C, 0x00, 0x00, 0x00, 0x3C, 0x00, 0x02, 0x00,
   0x22, 0x00, 0x10, 0x00, 0x12, 0x00, 0x08, 0x00, 0x32, 0x00, 0x0A, 0x00, 0x2A, 0x00, 0x1A,
   0x00, 0x3A, 0x00, 0x06, 0x00, 0x26, 0x00, 0x16, 0x00, 0x36, 0x00, 0x0E, 0x00, 0x2E, 0x00,
   0x1E, 0x00, 0x3E, 0x00, 0x01, 0x00, 0xED, 0x00, 0x18, 0x00, 0x21, 0x00, 0x25, 0x00, 0x65,
   0x00, 0xFF, 0x1F]

/-- `HuffLengthLOM`. -/
def huffLengthLOM : List ℕ :=
  [4, 2, 3, 4, 3, 4, 4, 5, 4, 5, 5, 6, 6, 7, 7, 8, 7, 8, 8, 9, 9, 8, 9, 9,
   9, 9, 9, 9, 9, 9, 9, 9]

/-- `HuffCodeLOM`. -/
def huffCodeLOM : List ℕ :=
  [0x0001, 0x0000, 0x0002, 0x0009, 0x0006, 0x0005, 0x000D, 0x000B, 0x0003, 0x001B, 0x0007,
   0x0017, 0x0037, 0x000F, 0x004F, 0x006F, 0x002F, 0x00EF, 0x001F, 0x005F, 0x015F, 0x009F,
   0x00DF, 0x01DF, 0x003F, 0x013F, 0x00BF, 0x01BF, 0x007F, 0x017F, 0x00FF, 0x01FF]

/-- `CopyOffsetBitsLUT`. -/
def copyOffsetBitsLUT : List ℕ :=
  [0, 0, 0, 0, 1, 1, 2, 2, 3, 3, 4, 4, 5, 5, 6, 6, 7, 7, 8, 8, 9, 9, 10, 10,
   11, 11, 12, 12, 13, 13, 14, 14]

/-- `CopyOffsetBaseLUT`. -/
def copyOffsetBaseLUT : List ℕ :=
  [0x1, 0x2, 0x3, 0x4, 0x5, 0x7, 0x9, 0xD, 0x11, 0x19, 0x21, 0x31, 0x41, 0x61,
   0x81, 0xC1, 0x101, 0x181, 0x201, 0x301, 0x401, 0x601, 0x801, 0xC01, 0x1001, 0x1801, 0x2001,
   0x3001, 0x4001, 0x6001, 0x8001, 0xC001]

/-- `LOMBitsLUT`. -/
def lomBitsLUT : List ℕ :=
  [0, 0, 0, 0, 0, 0, 0, 0, 1, 1, 1, 1, 2, 2, 2, 2, 3, 3, 3, 3, 4, 4, 4, 4,
   6, 6, 8, 8, 14, 14]

/-- `LOMBaseLUT`. -/
def lomBaseLUT : List ℕ :=
  [0x2, 0x3, 0x4, 0x5, 0x6, 0x7, 0x8, 0x9, 0xA, 0xC, 0xE, 0x10, 0x12, 0x16,
   0x1A, 0x1E, 0x22, 0x2A, 0x32, 0x3A, 0x42, 0x52, 0x62, 0x72, 0x82, 0xC2, 0x102, 0x202,
   0x2, 0x2]

/-- `get_word`. -/
def getWord (table : List ℕ) (index : ℕ) : ℕ :=
  table.getD index 0 ||| table.getD (index + 1) 0 <<< 8

/-- The bits of `HuffTableMask` at an index, kept of a number. -/
def maskedBits (bits index : ℕ) : ℕ := bits &&& getWord huffTableMask index

/-- The code of a symbol in `HuffCodeLEC`, and its number of bits. -/
def lecField (symbol : ℕ) : ℕ × ℕ :=
  (getWord huffCodeLEC (2 * symbol), huffLengthLEC.getD symbol 0)

/-- The code of a symbol in `HuffCodeLOM`. -/
def lomField (symbol : ℕ) : ℕ × ℕ := (huffCodeLOM.getD symbol 0, huffLengthLOM.getD symbol 0)

/-- The entries of `HuffTableLOM` of a context from the third on, as `ncrush_generate_tables` makes
them. -/
def contextLOM : List ℕ :=
  (range 28).flatMap fun i => replicate (2 ^ lomBitsLUT.getD i 0) i

/-- The entries of `HuffTableCopyOffset` of a context from the third on.  The second loop goes on
two entries further, in steps of `128` offsets. -/
def contextCopyOffset : List ℕ :=
  ((range 16).flatMap fun i => replicate (2 ^ copyOffsetBitsLUT.getD i 0) i) ++
    [0, 0] ++
    (range 16).flatMap fun i =>
      replicate (2 ^ (copyOffsetBitsLUT.getD (i + 16) 0 - 7)) (i + 16)

/-- The symbol of a copy offset. -/
def copyOffsetIndex (copyOffset : ℕ) : ℕ :=
  contextCopyOffset.getD (if copyOffset ≥ 256 then copyOffset >>> 7 + 256 else copyOffset) 0

/-- The symbol of the length of a match. -/
def matchLengthIndex (matchLength : ℕ) : ℕ :=
  if matchLength - 2 ≥ 768 then 28 else contextLOM.getD (matchLength - 2) 0

/-! ## Codes and their tables -/

/-- A condition on the numbers below a bound. -/
def allBelow (p : ℕ → Bool) : ℕ → Bool
  | 0 => true
  | n + 1 => p n && allBelow p n

theorem of_allBelow {p : ℕ → Bool} {n i : ℕ} (h : allBelow p n = true) (hi : i < n) :
    p i = true := by
  induction n with
  | zero => omega
  | succ n ih =>
    rw [allBelow, Bool.and_eq_true] at h
    obtain rfl | hlt := eq_or_lt_of_le (le_of_lt_succ hi)
    · exact h.1
    · exact ih h.2 hlt

/-- The codes are found in a table by `width` bits, whatever bits follow them. -/
def codesFound (entry : ℕ → ℕ) (width : ℕ) : List ℕ → List ℕ → ℕ → Bool
  | c :: cs, l :: ls, symbol =>
    decide (c < 2 ^ l) && decide (l ≤ width) &&
      allBelow (fun x => entry (c + x * 2 ^ l) == l * 2 ^ 12 + symbol) (2 ^ (width - l)) &&
      codesFound entry width cs ls (symbol + 1)
  | [], [], _ => true
  | _, _, _ => false

theorem of_codesFound {entry : ℕ → ℕ} {width symbol i : ℕ} {codes lengths : List ℕ}
    (h : codesFound entry width codes lengths symbol = true) (hi : i < lengths.length) :
    codes.getD i 0 < 2 ^ lengths.getD i 0 ∧ lengths.getD i 0 ≤ width ∧
      ∀ x < 2 ^ (width - lengths.getD i 0),
        entry (codes.getD i 0 + x * 2 ^ lengths.getD i 0) =
          lengths.getD i 0 * 2 ^ 12 + (symbol + i) := by
  induction lengths generalizing codes symbol i with
  | nil => exact absurd hi (not_lt_zero i)
  | cons l ls ih =>
    cases codes with
    | nil => exact absurd h Bool.false_ne_true
    | cons c cs =>
      simp only [codesFound, Bool.and_eq_true, decide_eq_true_eq] at h
      obtain ⟨⟨⟨hcode, hwidth⟩, hall⟩, hrest⟩ := h
      cases i with
      | zero =>
        refine ⟨hcode, hwidth, fun x hx => ?_⟩
        have hfound := of_allBelow hall hx
        exact eq_of_beq hfound
      | succ i =>
        have hnext := ih hrest (lt_of_succ_lt_succ hi)
        rw [add_assoc, add_comm 1 i] at hnext
        simpa only [getD_cons_succ] using hnext

/-- A code in front of any number of bits. -/
theorem entry_of_codesFound {entry : ℕ → ℕ} {width i : ℕ} {codes lengths : List ℕ}
    (h : codesFound entry width codes lengths 0 = true) (hi : i < lengths.length) (rest : ℕ) :
    entry ((codes.getD i 0 + 2 ^ lengths.getD i 0 * rest) % 2 ^ width) =
      lengths.getD i 0 * 2 ^ 12 + i := by
  obtain ⟨hcode, hwidth, hfound⟩ := of_codesFound h hi
  have hpow : 2 ^ width = 2 ^ lengths.getD i 0 * 2 ^ (width - lengths.getD i 0) := by
    rw [← pow_add, Nat.add_sub_cancel' hwidth]
  have hindex : (codes.getD i 0 + 2 ^ lengths.getD i 0 * rest) % 2 ^ width =
      codes.getD i 0 + rest % 2 ^ (width - lengths.getD i 0) * 2 ^ lengths.getD i 0 := by
    rw [hpow, mod_mul, add_mul_mod_self_left, mod_eq_of_lt hcode,
      Nat.add_mul_div_left _ _ (Nat.two_pow_pos _), Nat.div_eq_of_lt hcode, Nat.zero_add,
      mul_comm]
  rw [hindex, hfound _ (Nat.mod_lt _ (Nat.two_pow_pos _)), Nat.zero_add]

/-- The words of a table of bytes. -/
def wordsOf : List ℕ → List ℕ
  | low :: high :: rest => (low ||| high <<< 8) :: wordsOf rest
  | _ => []

theorem getD_wordsOf {table : List ℕ} {i : ℕ} (hi : 2 * i + 1 < table.length) :
    (wordsOf table).getD i 0 = getWord table (2 * i) := by
  induction i generalizing table with
  | zero =>
    match table, hi with
    | _ :: _ :: _, _ => rfl
  | succ i ih =>
    match table, hi with
    | _ :: _ :: rest, hi =>
      rw [wordsOf, getD_cons_succ, ih (by simp only [length_cons] at hi; omega)]
      rfl

/-- Every entry from `j` on, in steps of `2 ^ step` offsets, is the symbol with the offset's upper
bits as its base. -/
def offsetsSplit (step : ℕ) : List ℕ → ℕ → Bool
  | i :: is, j =>
    decide (i < 32) && decide (step ≤ copyOffsetBitsLUT.getD i 0) &&
      decide (copyOffsetBitsLUT.getD i 0 ≤ 14) &&
      copyOffsetBaseLUT.getD i 0 == j / 2 ^ (copyOffsetBitsLUT.getD i 0 - step) *
        2 ^ copyOffsetBitsLUT.getD i 0 + 1 &&
      offsetsSplit step is (j + 1)
  | [], _ => true

theorem tables_checked :
    codesFound huffTableLEC 13 (wordsOf huffCodeLEC) huffLengthLEC 0 = true ∧
      codesFound huffTableLOM 9 huffCodeLOM huffLengthLOM 0 = true ∧
      (∀ length ∈ huffLengthLEC, 5 ≤ length ∧ length ≤ 13) ∧
      huffLengthLEC.length = 294 ∧ huffCodeLEC.length = 588 ∧
      (∀ n ≤ 16, 0 < n → getWord huffTableMask (2 * n + 3) = 2 ^ n - 1) ∧
      offsetsSplit 0 (contextCopyOffset.take 256) 0 = true ∧
      offsetsSplit 7 (contextCopyOffset.drop 258) 2 = true ∧ contextCopyOffset.length = 768 := by
  decide +kernel

theorem lec_codesFound :
    codesFound huffTableLEC 13 (wordsOf huffCodeLEC) huffLengthLEC 0 = true := tables_checked.1

theorem lom_codesFound : codesFound huffTableLOM 9 huffCodeLOM huffLengthLOM 0 = true :=
  tables_checked.2.1

theorem lecLengths_bounds : ∀ length ∈ huffLengthLEC, 5 ≤ length ∧ length ≤ 13 :=
  tables_checked.2.2.1

theorem length_huffLengthLEC : huffLengthLEC.length = 294 := tables_checked.2.2.2.1

theorem length_huffCodeLEC : huffCodeLEC.length = 588 := tables_checked.2.2.2.2.1

theorem near_offsetsSplit : offsetsSplit 0 (contextCopyOffset.take 256) 0 = true :=
  tables_checked.2.2.2.2.2.2.1

theorem far_offsetsSplit : offsetsSplit 7 (contextCopyOffset.drop 258) 2 = true :=
  tables_checked.2.2.2.2.2.2.2.1

theorem length_contextCopyOffset : contextCopyOffset.length = 768 :=
  tables_checked.2.2.2.2.2.2.2.2

theorem lecField_bounds {symbol : ℕ} (hsymbol : symbol < 294) :
    (lecField symbol).1 < 2 ^ (lecField symbol).2 ∧ 5 ≤ (lecField symbol).2 ∧
      (lecField symbol).2 ≤ 13 := by
  have hindex : symbol < huffLengthLEC.length := length_huffLengthLEC ▸ hsymbol
  obtain ⟨hcode, -, -⟩ := of_codesFound lec_codesFound hindex
  rw [getD_wordsOf (by rw [length_huffCodeLEC]; omega)] at hcode
  refine ⟨hcode, ?_⟩
  rw [lecField, getD_eq_getElem _ _ hindex]
  exact lecLengths_bounds _ (getElem_mem hindex)

/-- **A code of `LEC` is found as its symbol.** -/
theorem huffTableLEC_code {symbol : ℕ} (hsymbol : symbol < 294) (rest : ℕ) :
    huffTableLEC (((lecField symbol).1 + 2 ^ (lecField symbol).2 * rest) % 2 ^ 13) =
      (lecField symbol).2 * 2 ^ 12 + symbol := by
  have hindex : symbol < huffLengthLEC.length := length_huffLengthLEC ▸ hsymbol
  have hfound := entry_of_codesFound lec_codesFound hindex rest
  rwa [getD_wordsOf (by rw [length_huffCodeLEC]; omega)] at hfound

theorem lomField_bounds {symbol : ℕ} (hsymbol : symbol < 32) :
    (lomField symbol).1 < 2 ^ (lomField symbol).2 ∧ (lomField symbol).2 ≤ 9 := by
  obtain ⟨hcode, hwidth, -⟩ :=
    of_codesFound lom_codesFound (show symbol < huffLengthLOM.length from hsymbol)
  exact ⟨hcode, hwidth⟩

/-- **A code of `LOM` is found as its symbol.** -/
theorem huffTableLOM_code {symbol : ℕ} (hsymbol : symbol < 32) (rest : ℕ) :
    huffTableLOM (((lomField symbol).1 + 2 ^ (lomField symbol).2 * rest) % 2 ^ 9) =
      (lomField symbol).2 * 2 ^ 12 + symbol :=
  entry_of_codesFound lom_codesFound (show symbol < huffLengthLOM.length from hsymbol) rest

/-- The masks are the numbers of ones that their places say. -/
theorem maskedBits_eq {bits n : ℕ} (hn : 0 < n) (hle : n ≤ 16) :
    maskedBits bits (2 * n + 3) = bits % 2 ^ n := by
  have hmask := tables_checked.2.2.2.2.2.1
  rw [maskedBits, hmask n hle hn, and_two_pow_sub_one_eq_mod]

/-! ## Offsets and lengths -/

theorem of_offsetsSplit {step i j : ℕ} {is : List ℕ} (h : offsetsSplit step is j = true)
    (hi : i < is.length) :
    is.getD i 0 < 32 ∧ step ≤ copyOffsetBitsLUT.getD (is.getD i 0) 0 ∧
      copyOffsetBitsLUT.getD (is.getD i 0) 0 ≤ 14 ∧
      copyOffsetBaseLUT.getD (is.getD i 0) 0 =
        (j + i) / 2 ^ (copyOffsetBitsLUT.getD (is.getD i 0) 0 - step) *
          2 ^ copyOffsetBitsLUT.getD (is.getD i 0) 0 + 1 := by
  induction is generalizing i j with
  | nil => exact absurd hi (not_lt_zero i)
  | cons k is ih =>
    simp only [offsetsSplit, Bool.and_eq_true, decide_eq_true_eq, beq_iff_eq] at h
    obtain ⟨⟨⟨⟨hindex, hstep⟩, hbits⟩, hbase⟩, hrest⟩ := h
    cases i with
    | zero => exact ⟨hindex, hstep, hbits, hbase⟩
    | succ i =>
      have hnext := ih hrest (lt_of_succ_lt_succ hi)
      rw [add_assoc, add_comm 1 i] at hnext
      simpa only [getD_cons_succ] using hnext

/-- **A copy offset is the base of its symbol and the bits that follow.** -/
theorem copyOffset_split {copyOffset : ℕ} (h : copyOffset < 65536) :
    copyOffsetIndex copyOffset < 32 ∧
      copyOffsetBitsLUT.getD (copyOffsetIndex copyOffset) 0 ≤ 14 ∧
      copyOffsetBaseLUT.getD (copyOffsetIndex copyOffset) 0 +
        copyOffset % 2 ^ copyOffsetBitsLUT.getD (copyOffsetIndex copyOffset) 0 =
          copyOffset + 1 := by
  by_cases hfar : copyOffset ≥ 256
  · have hindex : copyOffsetIndex copyOffset =
        (contextCopyOffset.drop 258).getD (copyOffset / 2 ^ 7 - 2) 0 := by
      rw [copyOffsetIndex, if_pos hfar, getD_eq_getElem?_getD, getD_eq_getElem?_getD,
        getElem?_drop, shiftRight_eq_div_pow]
      congr 2
      omega
    have hlength : (contextCopyOffset.drop 258).length = 510 := by
      rw [length_drop, length_contextCopyOffset]
    obtain ⟨hlt, hstep, hbits, hbase⟩ :=
      of_offsetsSplit far_offsetsSplit (i := copyOffset / 2 ^ 7 - 2) (by omega)
    rw [← hindex] at hlt hstep hbits hbase
    refine ⟨hlt, hbits, ?_⟩
    have hsum : 2 + (copyOffset / 2 ^ 7 - 2) = copyOffset / 2 ^ 7 := by omega
    rw [hbase, hsum, Nat.div_div_eq_div_mul, ← pow_add, Nat.add_sub_cancel' hstep]
    have hparts := div_add_mod' copyOffset
      (2 ^ copyOffsetBitsLUT.getD (copyOffsetIndex copyOffset) 0)
    omega
  · have hindex : copyOffsetIndex copyOffset =
        (contextCopyOffset.take 256).getD copyOffset 0 := by
      rw [copyOffsetIndex, if_neg hfar, getD_eq_getElem?_getD, getD_eq_getElem?_getD,
        getElem?_take_of_lt (by omega)]
    have hlength : (contextCopyOffset.take 256).length = 256 := by
      rw [length_take, length_contextCopyOffset]
      rfl
    obtain ⟨hlt, -, hbits, hbase⟩ :=
      of_offsetsSplit near_offsetsSplit (i := copyOffset) (by omega)
    rw [← hindex] at hlt hbits hbase
    refine ⟨hlt, hbits, ?_⟩
    rw [hbase, Nat.zero_add, Nat.sub_zero]
    have hparts := div_add_mod' copyOffset
      (2 ^ copyOffsetBitsLUT.getD (copyOffsetIndex copyOffset) 0)
    omega

/-- **The length of a match is the base of its symbol and the bits that follow.** -/
theorem matchLength_split : ∀ matchLength ≤ 16, 2 ≤ matchLength →
    matchLengthIndex matchLength < 28 ∧ lomBitsLUT.getD (matchLengthIndex matchLength) 0 ≤ 8 ∧
      (matchLength - 2) % 2 ^ lomBitsLUT.getD (matchLengthIndex matchLength) 0 +
        lomBaseLUT.getD (matchLengthIndex matchLength) 0 = matchLength := by
  decide +kernel

end Ncrush
