/-
Module: CellScript.Token.Symbols
Purpose: Which symbol stands for which kind of token.
Main exports: TokenKind.symbol, Symbol.kind?, Symbol.meaning
-/
import CellScript.Space.Grid
import CellScript.Token.Kind

namespace CellScript

/-- The symbol that stands for a kind of token. -/
def TokenKind.symbol : TokenKind → Symbol
  | .plus => ⟨"iron_ore"⟩
  | .minus => ⟨"copper_ore"⟩
  | .mul => ⟨"gold_ore"⟩
  | .div => ⟨"redstone_ore"⟩
  | .mod => ⟨"emerald_ore"⟩
  | .pow => ⟨"lapis_ore"⟩
  | .lpar => ⟨"stripped_crimson_hyphae"⟩
  | .rpar => ⟨"crimson_hyphae"⟩
  | .bitAnd => ⟨"deepslate_iron_ore"⟩
  | .bitOr => ⟨"deepslate_copper_ore"⟩
  | .bitXor => ⟨"deepslate_gold_ore"⟩
  | .bitNot => ⟨"deepslate_lapis_ore"⟩
  | .shl => ⟨"deepslate_redstone_ore"⟩
  | .shr => ⟨"deepslate_emerald_ore"⟩
  | .zero => ⟨"white_wool"⟩
  | .one => ⟨"black_wool"⟩
  | .and => ⟨"nether_gold_ore"⟩
  | .or => ⟨"nether_quartz_ore"⟩
  | .not => ⟨"ancient_debris"⟩
  | .xor => ⟨"netherrack"⟩
  | .eq => ⟨"stone"⟩
  | .ne => ⟨"deepslate"⟩
  | .gt => ⟨"granite"⟩
  | .lt => ⟨"diorite"⟩
  | .ge => ⟨"andesite"⟩
  | .le => ⟨"polished_andesite"⟩
  | .sin => ⟨"white_glazed_terracotta"⟩
  | .cos => ⟨"light_gray_glazed_terracotta"⟩
  | .tan => ⟨"gray_glazed_terracotta"⟩
  | .asin => ⟨"black_glazed_terracotta"⟩
  | .acos => ⟨"brown_glazed_terracotta"⟩
  | .atan => ⟨"red_glazed_terracotta"⟩
  | .abs => ⟨"orange_glazed_terracotta"⟩
  | .ceil => ⟨"yellow_glazed_terracotta"⟩
  | .floor => ⟨"lime_glazed_terracotta"⟩
  | .pi => ⟨"green_glazed_terracotta"⟩
  | .expBase => ⟨"cyan_glazed_terracotta"⟩
  | .command => ⟨"command_block"⟩
  | .stop => ⟨"tnt"⟩
  | .print => ⟨"dark_prismarine"⟩
  | .goto => ⟨"obsidian"⟩
  | .placeBlock => ⟨"piston"⟩
  | .ifElse => ⟨"oak_wood"⟩
  | .branchEnd => ⟨"stripped_oak_wood"⟩
  | .whileLoop => ⟨"birch_wood"⟩
  | .forLoop => ⟨"jungle_wood"⟩
  | .breakLoop => ⟨"red_nether_bricks"⟩
  | .continueLoop => ⟨"nether_bricks"⟩
  | .firstArgument => ⟨"glass"⟩
  | .secondArgument => ⟨"tinted_glass"⟩
  | .thirdArgument => ⟨"red_stained_glass"⟩
  | .fourthArgument => ⟨"lime_stained_glass"⟩
  | .int => ⟨"diamond_block"⟩
  | .float => ⟨"gold_block"⟩
  | .string => ⟨"iron_block"⟩
  | .bool => ⟨"emerald_block"⟩
  | .varIndex => ⟨"smooth_stone"⟩
  | .useVar => ⟨"chiseled_stone_bricks"⟩

namespace Symbol

/-- The kind of token that a symbol stands for. -/
def kind? (s : Symbol) : Option TokenKind :=
  TokenKind.all.find? fun kind => kind.symbol == s

/-- The symbol that turns a walk into its own facing. -/
def redirector : Symbol :=
  ⟨"observer"⟩

/-- What a walk makes of a symbol. -/
inductive Meaning where
  | token (kind : TokenKind)
  | redirector
  | unknown
deriving DecidableEq, Repr

/-- How a walk reads a symbol. -/
def meaning (s : Symbol) : Meaning :=
  match s.kind? with
  | some kind => .token kind
  | none => if s == redirector then .redirector else .unknown

end Symbol

end CellScript
