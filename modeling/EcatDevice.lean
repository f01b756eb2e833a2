import EcatDevice.Files.Tree
import EcatDevice.Main
import EcatDevice.Proofs.Bits
import EcatDevice.Proofs.Layout
import EcatDevice.Proofs.Telegram
import EcatDevice.Proofs.GeneratedCode
import EcatDevice.Proofs.DictionaryChanges
import EcatDevice.Proofs.DictionaryShape
import EcatDevice.Proofs.Checked
import EcatDevice.Proofs.ByteNumbers
import EcatDevice.Proofs.SettingsLookup
import EcatDevice.Proofs.SlotLayout
import EcatDevice.Proofs.CategoryFormat
import EcatDevice.Proofs.CategoryContent
import EcatDevice.Proofs.ImageReadBack
import EcatDevice.Proofs.RecordFields
import EcatDevice.Proofs.Declarations
import EcatDevice.Proofs.SymbolTable
import EcatDevice.Proofs.SortingPermutes
import EcatDevice.Proofs.DictionaryGrowth
import EcatDevice.Proofs.MappingReferences
import EcatDevice.Proofs.MappingArrays
import EcatDevice.Proofs.Marks
import EcatDevice.Proofs.Causality
import EcatDevice.Proofs.MappingAgreement
import EcatDevice.Proofs.SettingsStages
import EcatDevice.Proofs.ProcessDataSize
import EcatDevice.Proofs.Scoping
import EcatDevice.Proofs.FailedDirectives
import EcatDevice.Proofs.SortingAscends
import EcatDevice.Proofs.ValueOrder
import EcatDevice.Proofs.GlobMatching
import EcatDevice.Proofs.ParsedNames
import EcatDevice.Proofs.WildcardExpansion
import EcatDevice.Proofs.Printing
import EcatDevice.Proofs.LexemeReading
import EcatDevice.Proofs.TokenReading
import EcatDevice.Proofs.GrammarReading
import EcatDevice.Proofs.DraftMeaning
import EcatDevice.Proofs.StatementReading
import EcatDevice.Proofs.TelegramExtent
import EcatDevice.Proofs.AccessMasks
import EcatDevice.Proofs.DefaultRanges
import EcatDevice.Proofs.ChecksumBits
import EcatDevice.Proofs.LayoutExactness
import EcatDevice.Proofs.ListingReading
import EcatDevice.Proofs.ImageParts
import EcatDevice.Proofs.PublishedSettings
import EcatDevice.Proofs.ImageRepeats
import EcatDevice.Proofs.ChecksumRemainder
import EcatDevice.Proofs.DictionaryOutline
import EcatDevice.Proofs.MapSynthesis
import EcatDevice.Proofs.SettingsInflation
import EcatDevice.Proofs.DefaultEncoding
import EcatDevice.Proofs.RecordGrowth
import EcatDevice.Proofs.ObjectMemory
import EcatDevice.Proofs.TemplateTree
import EcatDevice.Proofs.TransferSteps
import EcatDevice.Proofs.ModeTrimming
import EcatDevice.Proofs.AdvertisedSize
import EcatDevice.Proofs.IntegerLiterals
