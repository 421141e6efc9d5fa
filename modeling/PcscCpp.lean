import PcscCpp.Laws.Apdu
import PcscCpp.Laws.Asn1File
import PcscCpp.Laws.BlockRanges
import PcscCpp.Laws.Commands
import PcscCpp.Laws.CompleteBlocks
import PcscCpp.Laws.Completion
import PcscCpp.Laws.ExpectedResponse
import PcscCpp.Laws.FeatureTable
import PcscCpp.Laws.Isolation
import PcscCpp.Laws.Lifetimes
import PcscCpp.Laws.Listings
import PcscCpp.Laws.Messages
import PcscCpp.Laws.NoReaders
import PcscCpp.Laws.Reporting
import PcscCpp.Laws.System
import PcscCpp.Laws.Thrown
import PcscCpp.Laws.Utilities
