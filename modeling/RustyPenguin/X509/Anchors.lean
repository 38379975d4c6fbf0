import RustyPenguin.X509.Cert

/-!
# The embedded trust store

The three embedded anchors, as the bytes of their certificates, and the two certificates
the boot self-test presents below the last of them.
-/

set_option autoImplicit false

namespace RustyPenguin.X509

def gtsRootR1 : List UInt8 := [
    0x30, 0x82, 0x05, 0x57, 0x30, 0x82, 0x03, 0x3f, 0xa0, 0x03, 0x02, 0x01, 0x02, 0x02, 0x0d, 0x02,
    0x03, 0xe5, 0x93, 0x6f, 0x31, 0xb0, 0x13, 0x49, 0x88, 0x6b, 0xa2, 0x17, 0x30, 0x0d, 0x06, 0x09,
    0x2a, 0x86, 0x48, 0x86, 0xf7, 0x0d, 0x01, 0x01, 0x0c, 0x05, 0x00, 0x30, 0x47, 0x31, 0x0b, 0x30,
    0x09, 0x06, 0x03, 0x55, 0x04, 0x06, 0x13, 0x02, 0x55, 0x53, 0x31, 0x22, 0x30, 0x20, 0x06, 0x03,
    0x55, 0x04, 0x0a, 0x13, 0x19, 0x47, 0x6f, 0x6f, 0x67, 0x6c, 0x65, 0x20, 0x54, 0x72, 0x75, 0x73,
    0x74, 0x20, 0x53, 0x65, 0x72, 0x76, 0x69, 0x63, 0x65, 0x73, 0x20, 0x4c, 0x4c, 0x43, 0x31, 0x14,
    0x30, 0x12, 0x06, 0x03, 0x55, 0x04, 0x03, 0x13, 0x0b, 0x47, 0x54, 0x53, 0x20, 0x52, 0x6f, 0x6f,
    0x74, 0x20, 0x52, 0x31, 0x30, 0x1e, 0x17, 0x0d, 0x31, 0x36, 0x30, 0x36, 0x32, 0x32, 0x30, 0x30,
    0x30, 0x30, 0x30, 0x30, 0x5a, 0x17, 0x0d, 0x33, 0x36, 0x30, 0x36, 0x32, 0x32, 0x30, 0x30, 0x30,
    0x30, 0x30, 0x30, 0x5a, 0x30, 0x47, 0x31, 0x0b, 0x30, 0x09, 0x06, 0x03, 0x55, 0x04, 0x06, 0x13,
    0x02, 0x55, 0x53, 0x31, 0x22, 0x30, 0x20, 0x06, 0x03, 0x55, 0x04, 0x0a, 0x13, 0x19, 0x47, 0x6f,
    0x6f, 0x67, 0x6c, 0x65, 0x20, 0x54, 0x72, 0x75, 0x73, 0x74, 0x20, 0x53, 0x65, 0x72, 0x76, 0x69,
    0x63, 0x65, 0x73, 0x20, 0x4c, 0x4c, 0x43, 0x31, 0x14, 0x30, 0x12, 0x06, 0x03, 0x55, 0x04, 0x03,
    0x13, 0x0b, 0x47, 0x54, 0x53, 0x20, 0x52, 0x6f, 0x6f, 0x74, 0x20, 0x52, 0x31, 0x30, 0x82, 0x02,
    0x22, 0x30, 0x0d, 0x06, 0x09, 0x2a, 0x86, 0x48, 0x86, 0xf7, 0x0d, 0x01, 0x01, 0x01, 0x05, 0x00,
    0x03, 0x82, 0x02, 0x0f, 0x00, 0x30, 0x82, 0x02, 0x0a, 0x02, 0x82, 0x02, 0x01, 0x00, 0xb6, 0x11,
    0x02, 0x8b, 0x1e, 0xe3, 0xa1, 0x77, 0x9b, 0x3b, 0xdc, 0xbf, 0x94, 0x3e, 0xb7, 0x95, 0xa7, 0x40,
    0x3c, 0xa1, 0xfd, 0x82, 0xf9, 0x7d, 0x32, 0x06, 0x82, 0x71, 0xf6, 0xf6, 0x8c, 0x7f, 0xfb, 0xe8,
    0xdb, 0xbc, 0x6a, 0x2e, 0x97, 0x97, 0xa3, 0x8c, 0x4b, 0xf9, 0x2b, 0xf6, 0xb1, 0xf9, 0xce, 0x84,
    0x1d, 0xb1, 0xf9, 0xc5, 0x97, 0xde, 0xef, 0xb9, 0xf2, 0xa3, 0xe9, 0xbc, 0x12, 0x89, 0x5e, 0xa7,
    0xaa, 0x52, 0xab, 0xf8, 0x23, 0x27, 0xcb, 0xa4, 0xb1, 0x9c, 0x63, 0xdb, 0xd7, 0x99, 0x7e, 0xf0,
    0x0a, 0x5e, 0xeb, 0x68, 0xa6, 0xf4, 0xc6, 0x5a, 0x47, 0x0d, 0x4d, 0x10, 0x33, 0xe3, 0x4e, 0xb1,
    0x13, 0xa3, 0xc8, 0x18, 0x6c, 0x4b, 0xec, 0xfc, 0x09, 0x90, 0xdf, 0x9d, 0x64, 0x29, 0x25, 0x23,
    0x07, 0xa1, 0xb4, 0xd2, 0x3d, 0x2e, 0x60, 0xe0, 0xcf, 0xd2, 0x09, 0x87, 0xbb, 0xcd, 0x48, 0xf0,
    0x4d, 0xc2, 0xc2, 0x7a, 0x88, 0x8a, 0xbb, 0xba, 0xcf, 0x59, 0x19, 0xd6, 0xaf, 0x8f, 0xb0, 0x07,
    0xb0, 0x9e, 0x31, 0xf1, 0x82, 0xc1, 0xc0, 0xdf, 0x2e, 0xa6, 0x6d, 0x6c, 0x19, 0x0e, 0xb5, 0xd8,
    0x7e, 0x26, 0x1a, 0x45, 0x03, 0x3d, 0xb0, 0x79, 0xa4, 0x94, 0x28, 0xad, 0x0f, 0x7f, 0x26, 0xe5,
    0xa8, 0x08, 0xfe, 0x96, 0xe8, 0x3c, 0x68, 0x94, 0x53, 0xee, 0x83, 0x3a, 0x88, 0x2b, 0x15, 0x96,
    0x09, 0xb2, 0xe0, 0x7a, 0x8c, 0x2e, 0x75, 0xd6, 0x9c, 0xeb, 0xa7, 0x56, 0x64, 0x8f, 0x96, 0x4f,
    0x68, 0xae, 0x3d, 0x97, 0xc2, 0x84, 0x8f, 0xc0, 0xbc, 0x40, 0xc0, 0x0b, 0x5c, 0xbd, 0xf6, 0x87,
    0xb3, 0x35, 0x6c, 0xac, 0x18, 0x50, 0x7f, 0x84, 0xe0, 0x4c, 0xcd, 0x92, 0xd3, 0x20, 0xe9, 0x33,
    0xbc, 0x52, 0x99, 0xaf, 0x32, 0xb5, 0x29, 0xb3, 0x25, 0x2a, 0xb4, 0x48, 0xf9, 0x72, 0xe1, 0xca,
    0x64, 0xf7, 0xe6, 0x82, 0x10, 0x8d, 0xe8, 0x9d, 0xc2, 0x8a, 0x88, 0xfa, 0x38, 0x66, 0x8a, 0xfc,
    0x63, 0xf9, 0x01, 0xf9, 0x78, 0xfd, 0x7b, 0x5c, 0x77, 0xfa, 0x76, 0x87, 0xfa, 0xec, 0xdf, 0xb1,
    0x0e, 0x79, 0x95, 0x57, 0xb4, 0xbd, 0x26, 0xef, 0xd6, 0x01, 0xd1, 0xeb, 0x16, 0x0a, 0xbb, 0x8e,
    0x0b, 0xb5, 0xc5, 0xc5, 0x8a, 0x55, 0xab, 0xd3, 0xac, 0xea, 0x91, 0x4b, 0x29, 0xcc, 0x19, 0xa4,
    0x32, 0x25, 0x4e, 0x2a, 0xf1, 0x65, 0x44, 0xd0, 0x02, 0xce, 0xaa, 0xce, 0x49, 0xb4, 0xea, 0x9f,
    0x7c, 0x83, 0xb0, 0x40, 0x7b, 0xe7, 0x43, 0xab, 0xa7, 0x6c, 0xa3, 0x8f, 0x7d, 0x89, 0x81, 0xfa,
    0x4c, 0xa5, 0xff, 0xd5, 0x8e, 0xc3, 0xce, 0x4b, 0xe0, 0xb5, 0xd8, 0xb3, 0x8e, 0x45, 0xcf, 0x76,
    0xc0, 0xed, 0x40, 0x2b, 0xfd, 0x53, 0x0f, 0xb0, 0xa7, 0xd5, 0x3b, 0x0d, 0xb1, 0x8a, 0xa2, 0x03,
    0xde, 0x31, 0xad, 0xcc, 0x77, 0xea, 0x6f, 0x7b, 0x3e, 0xd6, 0xdf, 0x91, 0x22, 0x12, 0xe6, 0xbe,
    0xfa, 0xd8, 0x32, 0xfc, 0x10, 0x63, 0x14, 0x51, 0x72, 0xde, 0x5d, 0xd6, 0x16, 0x93, 0xbd, 0x29,
    0x68, 0x33, 0xef, 0x3a, 0x66, 0xec, 0x07, 0x8a, 0x26, 0xdf, 0x13, 0xd7, 0x57, 0x65, 0x78, 0x27,
    0xde, 0x5e, 0x49, 0x14, 0x00, 0xa2, 0x00, 0x7f, 0x9a, 0xa8, 0x21, 0xb6, 0xa9, 0xb1, 0x95, 0xb0,
    0xa5, 0xb9, 0x0d, 0x16, 0x11, 0xda, 0xc7, 0x6c, 0x48, 0x3c, 0x40, 0xe0, 0x7e, 0x0d, 0x5a, 0xcd,
    0x56, 0x3c, 0xd1, 0x97, 0x05, 0xb9, 0xcb, 0x4b, 0xed, 0x39, 0x4b, 0x9c, 0xc4, 0x3f, 0xd2, 0x55,
    0x13, 0x6e, 0x24, 0xb0, 0xd6, 0x71, 0xfa, 0xf4, 0xc1, 0xba, 0xcc, 0xed, 0x1b, 0xf5, 0xfe, 0x81,
    0x41, 0xd8, 0x00, 0x98, 0x3d, 0x3a, 0xc8, 0xae, 0x7a, 0x98, 0x37, 0x18, 0x05, 0x95, 0x02, 0x03,
    0x01, 0x00, 0x01, 0xa3, 0x42, 0x30, 0x40, 0x30, 0x0e, 0x06, 0x03, 0x55, 0x1d, 0x0f, 0x01, 0x01,
    0xff, 0x04, 0x04, 0x03, 0x02, 0x01, 0x86, 0x30, 0x0f, 0x06, 0x03, 0x55, 0x1d, 0x13, 0x01, 0x01,
    0xff, 0x04, 0x05, 0x30, 0x03, 0x01, 0x01, 0xff, 0x30, 0x1d, 0x06, 0x03, 0x55, 0x1d, 0x0e, 0x04,
    0x16, 0x04, 0x14, 0xe4, 0xaf, 0x2b, 0x26, 0x71, 0x1a, 0x2b, 0x48, 0x27, 0x85, 0x2f, 0x52, 0x66,
    0x2c, 0xef, 0xf0, 0x89, 0x13, 0x71, 0x3e, 0x30, 0x0d, 0x06, 0x09, 0x2a, 0x86, 0x48, 0x86, 0xf7,
    0x0d, 0x01, 0x01, 0x0c, 0x05, 0x00, 0x03, 0x82, 0x02, 0x01, 0x00, 0x9f, 0xaa, 0x42, 0x26, 0xdb,
    0x0b, 0x9b, 0xbe, 0xff, 0x1e, 0x96, 0x92, 0x2e, 0x3e, 0xa2, 0x65, 0x4a, 0x6a, 0x98, 0xba, 0x22,
    0xcb, 0x7d, 0xc1, 0x3a, 0xd8, 0x82, 0x0a, 0x06, 0xc6, 0xf6, 0xa5, 0xde, 0xc0, 0x4e, 0x87, 0x66,
    0x79, 0xa1, 0xf9, 0xa6, 0x58, 0x9c, 0xaa, 0xf9, 0xb5, 0xe6, 0x60, 0xe7, 0xe0, 0xe8, 0xb1, 0x1e,
    0x42, 0x41, 0x33, 0x0b, 0x37, 0x3d, 0xce, 0x89, 0x70, 0x15, 0xca, 0xb5, 0x24, 0xa8, 0xcf, 0x6b,
    0xb5, 0xd2, 0x40, 0x21, 0x98, 0xcf, 0x22, 0x34, 0xcf, 0x3b, 0xc5, 0x22, 0x84, 0xe0, 0xc5, 0x0e,
    0x8a, 0x7c, 0x5d, 0x88, 0xe4, 0x35, 0x24, 0xce, 0x9b, 0x3e, 0x1a, 0x54, 0x1e, 0x6e, 0xdb, 0xb2,
    0x87, 0xa7, 0xfc, 0xf3, 0xfa, 0x81, 0x55, 0x14, 0x62, 0x0a, 0x59, 0xa9, 0x22, 0x05, 0x31, 0x3e,
    0x82, 0xd6, 0xee, 0xdb, 0x57, 0x34, 0xbc, 0x33, 0x95, 0xd3, 0x17, 0x1b, 0xe8, 0x27, 0xa2, 0x8b,
    0x7b, 0x4e, 0x26, 0x1a, 0x7a, 0x5a, 0x64, 0xb6, 0xd1, 0xac, 0x37, 0xf1, 0xfd, 0xa0, 0xf3, 0x38,
    0xec, 0x72, 0xf0, 0x11, 0x75, 0x9d, 0xcb, 0x34, 0x52, 0x8d, 0xe6, 0x76, 0x6b, 0x17, 0xc6, 0xdf,
    0x86, 0xab, 0x27, 0x8e, 0x49, 0x2b, 0x75, 0x66, 0x81, 0x10, 0x21, 0xa6, 0xea, 0x3e, 0xf4, 0xae,
    0x25, 0xff, 0x7c, 0x15, 0xde, 0xce, 0x8c, 0x25, 0x3f, 0xca, 0x62, 0x70, 0x0a, 0xf7, 0x2f, 0x09,
    0x66, 0x07, 0xc8, 0x3f, 0x1c, 0xfc, 0xf0, 0xdb, 0x45, 0x30, 0xdf, 0x62, 0x88, 0xc1, 0xb5, 0x0f,
    0x9d, 0xc3, 0x9f, 0x4a, 0xde, 0x59, 0x59, 0x47, 0xc5, 0x87, 0x22, 0x36, 0xe6, 0x82, 0xa7, 0xed,
    0x0a, 0xb9, 0xe2, 0x07, 0xa0, 0x8d, 0x7b, 0x7a, 0x4a, 0x3c, 0x71, 0xd2, 0xe2, 0x03, 0xa1, 0x1f,
    0x32, 0x07, 0xdd, 0x1b, 0xe4, 0x42, 0xce, 0x0c, 0x00, 0x45, 0x61, 0x80, 0xb5, 0x0b, 0x20, 0x59,
    0x29, 0x78, 0xbd, 0xf9, 0x55, 0xcb, 0x63, 0xc5, 0x3c, 0x4c, 0xf4, 0xb6, 0xff, 0xdb, 0x6a, 0x5f,
    0x31, 0x6b, 0x99, 0x9e, 0x2c, 0xc1, 0x6b, 0x50, 0xa4, 0xd7, 0xe6, 0x18, 0x14, 0xbd, 0x85, 0x3f,
    0x67, 0xab, 0x46, 0x9f, 0xa0, 0xff, 0x42, 0xa7, 0x3a, 0x7f, 0x5c, 0xcb, 0x5d, 0xb0, 0x70, 0x1d,
    0x2b, 0x34, 0xf5, 0xd4, 0x76, 0x09, 0x0c, 0xeb, 0x78, 0x4c, 0x59, 0x05, 0xf3, 0x33, 0x42, 0xc3,
    0x61, 0x15, 0x10, 0x1b, 0x77, 0x4d, 0xce, 0x22, 0x8c, 0xd4, 0x85, 0xf2, 0x45, 0x7d, 0xb7, 0x53,
    0xea, 0xef, 0x40, 0x5a, 0x94, 0x0a, 0x5c, 0x20, 0x5f, 0x4e, 0x40, 0x5d, 0x62, 0x22, 0x76, 0xdf,
    0xff, 0xce, 0x61, 0xbd, 0x8c, 0x23, 0x78, 0xd2, 0x37, 0x02, 0xe0, 0x8e, 0xde, 0xd1, 0x11, 0x37,
    0x89, 0xf6, 0xbf, 0xed, 0x49, 0x07, 0x62, 0xae, 0x92, 0xec, 0x40, 0x1a, 0xaf, 0x14, 0x09, 0xd9,
    0xd0, 0x4e, 0xb2, 0xa2, 0xf7, 0xbe, 0xee, 0xee, 0xd8, 0xff, 0xdc, 0x1a, 0x2d, 0xde, 0xb8, 0x36,
    0x71, 0xe2, 0xfc, 0x79, 0xb7, 0x94, 0x25, 0xd1, 0x48, 0x73, 0x5b, 0xa1, 0x35, 0xe7, 0xb3, 0x99,
    0x67, 0x75, 0xc1, 0x19, 0x3a, 0x2b, 0x47, 0x4e, 0xd3, 0x42, 0x8e, 0xfd, 0x31, 0xc8, 0x16, 0x66,
    0xda, 0xd2, 0x0c, 0x3c, 0xdb, 0xb3, 0x8e, 0xc9, 0xa1, 0x0d, 0x80, 0x0f, 0x7b, 0x16, 0x77, 0x14,
    0xbf, 0xff, 0xdb, 0x09, 0x94, 0xb2, 0x93, 0xbc, 0x20, 0x58, 0x15, 0xe9, 0xdb, 0x71, 0x43, 0xf3,
    0xde, 0x10, 0xc3, 0x00, 0xdc, 0xa8, 0x2a, 0x95, 0xb6, 0xc2, 0xd6, 0x3f, 0x90, 0x6b, 0x76, 0xdb,
    0x6c, 0xfe, 0x8c, 0xbc, 0xf2, 0x70, 0x35, 0x0c, 0xdc, 0x99, 0x19, 0x35, 0xdc, 0xd7, 0xc8, 0x46,
    0x63, 0xd5, 0x36, 0x71, 0xae, 0x57, 0xfb, 0xb7, 0x82, 0x6d, 0xdc]

def isrgRootX1 : List UInt8 := [
    0x30, 0x82, 0x05, 0x6b, 0x30, 0x82, 0x03, 0x53, 0xa0, 0x03, 0x02, 0x01, 0x02, 0x02, 0x11, 0x00,
    0x82, 0x10, 0xcf, 0xb0, 0xd2, 0x40, 0xe3, 0x59, 0x44, 0x63, 0xe0, 0xbb, 0x63, 0x82, 0x8b, 0x00,
    0x30, 0x0d, 0x06, 0x09, 0x2a, 0x86, 0x48, 0x86, 0xf7, 0x0d, 0x01, 0x01, 0x0b, 0x05, 0x00, 0x30,
    0x4f, 0x31, 0x0b, 0x30, 0x09, 0x06, 0x03, 0x55, 0x04, 0x06, 0x13, 0x02, 0x55, 0x53, 0x31, 0x29,
    0x30, 0x27, 0x06, 0x03, 0x55, 0x04, 0x0a, 0x13, 0x20, 0x49, 0x6e, 0x74, 0x65, 0x72, 0x6e, 0x65,
    0x74, 0x20, 0x53, 0x65, 0x63, 0x75, 0x72, 0x69, 0x74, 0x79, 0x20, 0x52, 0x65, 0x73, 0x65, 0x61,
    0x72, 0x63, 0x68, 0x20, 0x47, 0x72, 0x6f, 0x75, 0x70, 0x31, 0x15, 0x30, 0x13, 0x06, 0x03, 0x55,
    0x04, 0x03, 0x13, 0x0c, 0x49, 0x53, 0x52, 0x47, 0x20, 0x52, 0x6f, 0x6f, 0x74, 0x20, 0x58, 0x31,
    0x30, 0x1e, 0x17, 0x0d, 0x31, 0x35, 0x30, 0x36, 0x30, 0x34, 0x31, 0x31, 0x30, 0x34, 0x33, 0x38,
    0x5a, 0x17, 0x0d, 0x33, 0x35, 0x30, 0x36, 0x30, 0x34, 0x31, 0x31, 0x30, 0x34, 0x33, 0x38, 0x5a,
    0x30, 0x4f, 0x31, 0x0b, 0x30, 0x09, 0x06, 0x03, 0x55, 0x04, 0x06, 0x13, 0x02, 0x55, 0x53, 0x31,
    0x29, 0x30, 0x27, 0x06, 0x03, 0x55, 0x04, 0x0a, 0x13, 0x20, 0x49, 0x6e, 0x74, 0x65, 0x72, 0x6e,
    0x65, 0x74, 0x20, 0x53, 0x65, 0x63, 0x75, 0x72, 0x69, 0x74, 0x79, 0x20, 0x52, 0x65, 0x73, 0x65,
    0x61, 0x72, 0x63, 0x68, 0x20, 0x47, 0x72, 0x6f, 0x75, 0x70, 0x31, 0x15, 0x30, 0x13, 0x06, 0x03,
    0x55, 0x04, 0x03, 0x13, 0x0c, 0x49, 0x53, 0x52, 0x47, 0x20, 0x52, 0x6f, 0x6f, 0x74, 0x20, 0x58,
    0x31, 0x30, 0x82, 0x02, 0x22, 0x30, 0x0d, 0x06, 0x09, 0x2a, 0x86, 0x48, 0x86, 0xf7, 0x0d, 0x01,
    0x01, 0x01, 0x05, 0x00, 0x03, 0x82, 0x02, 0x0f, 0x00, 0x30, 0x82, 0x02, 0x0a, 0x02, 0x82, 0x02,
    0x01, 0x00, 0xad, 0xe8, 0x24, 0x73, 0xf4, 0x14, 0x37, 0xf3, 0x9b, 0x9e, 0x2b, 0x57, 0x28, 0x1c,
    0x87, 0xbe, 0xdc, 0xb7, 0xdf, 0x38, 0x90, 0x8c, 0x6e, 0x3c, 0xe6, 0x57, 0xa0, 0x78, 0xf7, 0x75,
    0xc2, 0xa2, 0xfe, 0xf5, 0x6a, 0x6e, 0xf6, 0x00, 0x4f, 0x28, 0xdb, 0xde, 0x68, 0x86, 0x6c, 0x44,
    0x93, 0xb6, 0xb1, 0x63, 0xfd, 0x14, 0x12, 0x6b, 0xbf, 0x1f, 0xd2, 0xea, 0x31, 0x9b, 0x21, 0x7e,
    0xd1, 0x33, 0x3c, 0xba, 0x48, 0xf5, 0xdd, 0x79, 0xdf, 0xb3, 0xb8, 0xff, 0x12, 0xf1, 0x21, 0x9a,
    0x4b, 0xc1, 0x8a, 0x86, 0x71, 0x69, 0x4a, 0x66, 0x66, 0x6c, 0x8f, 0x7e, 0x3c, 0x70, 0xbf, 0xad,
    0x29, 0x22, 0x06, 0xf3, 0xe4, 0xc0, 0xe6, 0x80, 0xae, 0xe2, 0x4b, 0x8f, 0xb7, 0x99, 0x7e, 0x94,
    0x03, 0x9f, 0xd3, 0x47, 0x97, 0x7c, 0x99, 0x48, 0x23, 0x53, 0xe8, 0x38, 0xae, 0x4f, 0x0a, 0x6f,
    0x83, 0x2e, 0xd1, 0x49, 0x57, 0x8c, 0x80, 0x74, 0xb6, 0xda, 0x2f, 0xd0, 0x38, 0x8d, 0x7b, 0x03,
    0x70, 0x21, 0x1b, 0x75, 0xf2, 0x30, 0x3c, 0xfa, 0x8f, 0xae, 0xdd, 0xda, 0x63, 0xab, 0xeb, 0x16,
    0x4f, 0xc2, 0x8e, 0x11, 0x4b, 0x7e, 0xcf, 0x0b, 0xe8, 0xff, 0xb5, 0x77, 0x2e, 0xf4, 0xb2, 0x7b,
    0x4a, 0xe0, 0x4c, 0x12, 0x25, 0x0c, 0x70, 0x8d, 0x03, 0x29, 0xa0, 0xe1, 0x53, 0x24, 0xec, 0x13,
    0xd9, 0xee, 0x19, 0xbf, 0x10, 0xb3, 0x4a, 0x8c, 0x3f, 0x89, 0xa3, 0x61, 0x51, 0xde, 0xac, 0x87,
    0x07, 0x94, 0xf4, 0x63, 0x71, 0xec, 0x2e, 0xe2, 0x6f, 0x5b, 0x98, 0x81, 0xe1, 0x89, 0x5c, 0x34,
    0x79, 0x6c, 0x76, 0xef, 0x3b, 0x90, 0x62, 0x79, 0xe6, 0xdb, 0xa4, 0x9a, 0x2f, 0x26, 0xc5, 0xd0,
    0x10, 0xe1, 0x0e, 0xde, 0xd9, 0x10, 0x8e, 0x16, 0xfb, 0xb7, 0xf7, 0xa8, 0xf7, 0xc7, 0xe5, 0x02,
    0x07, 0x98, 0x8f, 0x36, 0x08, 0x95, 0xe7, 0xe2, 0x37, 0x96, 0x0d, 0x36, 0x75, 0x9e, 0xfb, 0x0e,
    0x72, 0xb1, 0x1d, 0x9b, 0xbc, 0x03, 0xf9, 0x49, 0x05, 0xd8, 0x81, 0xdd, 0x05, 0xb4, 0x2a, 0xd6,
    0x41, 0xe9, 0xac, 0x01, 0x76, 0x95, 0x0a, 0x0f, 0xd8, 0xdf, 0xd5, 0xbd, 0x12, 0x1f, 0x35, 0x2f,
    0x28, 0x17, 0x6c, 0xd2, 0x98, 0xc1, 0xa8, 0x09, 0x64, 0x77, 0x6e, 0x47, 0x37, 0xba, 0xce, 0xac,
    0x59, 0x5e, 0x68, 0x9d, 0x7f, 0x72, 0xd6, 0x89, 0xc5, 0x06, 0x41, 0x29, 0x3e, 0x59, 0x3e, 0xdd,
    0x26, 0xf5, 0x24, 0xc9, 0x11, 0xa7, 0x5a, 0xa3, 0x4c, 0x40, 0x1f, 0x46, 0xa1, 0x99, 0xb5, 0xa7,
    0x3a, 0x51, 0x6e, 0x86, 0x3b, 0x9e, 0x7d, 0x72, 0xa7, 0x12, 0x05, 0x78, 0x59, 0xed, 0x3e, 0x51,
    0x78, 0x15, 0x0b, 0x03, 0x8f, 0x8d, 0xd0, 0x2f, 0x05, 0xb2, 0x3e, 0x7b, 0x4a, 0x1c, 0x4b, 0x73,
    0x05, 0x12, 0xfc, 0xc6, 0xea, 0xe0, 0x50, 0x13, 0x7c, 0x43, 0x93, 0x74, 0xb3, 0xca, 0x74, 0xe7,
    0x8e, 0x1f, 0x01, 0x08, 0xd0, 0x30, 0xd4, 0x5b, 0x71, 0x36, 0xb4, 0x07, 0xba, 0xc1, 0x30, 0x30,
    0x5c, 0x48, 0xb7, 0x82, 0x3b, 0x98, 0xa6, 0x7d, 0x60, 0x8a, 0xa2, 0xa3, 0x29, 0x82, 0xcc, 0xba,
    0xbd, 0x83, 0x04, 0x1b, 0xa2, 0x83, 0x03, 0x41, 0xa1, 0xd6, 0x05, 0xf1, 0x1b, 0xc2, 0xb6, 0xf0,
    0xa8, 0x7c, 0x86, 0x3b, 0x46, 0xa8, 0x48, 0x2a, 0x88, 0xdc, 0x76, 0x9a, 0x76, 0xbf, 0x1f, 0x6a,
    0xa5, 0x3d, 0x19, 0x8f, 0xeb, 0x38, 0xf3, 0x64, 0xde, 0xc8, 0x2b, 0x0d, 0x0a, 0x28, 0xff, 0xf7,
    0xdb, 0xe2, 0x15, 0x42, 0xd4, 0x22, 0xd0, 0x27, 0x5d, 0xe1, 0x79, 0xfe, 0x18, 0xe7, 0x70, 0x88,
    0xad, 0x4e, 0xe6, 0xd9, 0x8b, 0x3a, 0xc6, 0xdd, 0x27, 0x51, 0x6e, 0xff, 0xbc, 0x64, 0xf5, 0x33,
    0x43, 0x4f, 0x02, 0x03, 0x01, 0x00, 0x01, 0xa3, 0x42, 0x30, 0x40, 0x30, 0x0e, 0x06, 0x03, 0x55,
    0x1d, 0x0f, 0x01, 0x01, 0xff, 0x04, 0x04, 0x03, 0x02, 0x01, 0x06, 0x30, 0x0f, 0x06, 0x03, 0x55,
    0x1d, 0x13, 0x01, 0x01, 0xff, 0x04, 0x05, 0x30, 0x03, 0x01, 0x01, 0xff, 0x30, 0x1d, 0x06, 0x03,
    0x55, 0x1d, 0x0e, 0x04, 0x16, 0x04, 0x14, 0x79, 0xb4, 0x59, 0xe6, 0x7b, 0xb6, 0xe5, 0xe4, 0x01,
    0x73, 0x80, 0x08, 0x88, 0xc8, 0x1a, 0x58, 0xf6, 0xe9, 0x9b, 0x6e, 0x30, 0x0d, 0x06, 0x09, 0x2a,
    0x86, 0x48, 0x86, 0xf7, 0x0d, 0x01, 0x01, 0x0b, 0x05, 0x00, 0x03, 0x82, 0x02, 0x01, 0x00, 0x55,
    0x1f, 0x58, 0xa9, 0xbc, 0xb2, 0xa8, 0x50, 0xd0, 0x0c, 0xb1, 0xd8, 0x1a, 0x69, 0x20, 0x27, 0x29,
    0x08, 0xac, 0x61, 0x75, 0x5c, 0x8a, 0x6e, 0xf8, 0x82, 0xe5, 0x69, 0x2f, 0xd5, 0xf6, 0x56, 0x4b,
    0xb9, 0xb8, 0x73, 0x10, 0x59, 0xd3, 0x21, 0x97, 0x7e, 0xe7, 0x4c, 0x71, 0xfb, 0xb2, 0xd2, 0x60,
    0xad, 0x39, 0xa8, 0x0b, 0xea, 0x17, 0x21, 0x56, 0x85, 0xf1, 0x50, 0x0e, 0x59, 0xeb, 0xce, 0xe0,
    0x59, 0xe9, 0xba, 0xc9, 0x15, 0xef, 0x86, 0x9d, 0x8f, 0x84, 0x80, 0xf6, 0xe4, 0xe9, 0x91, 0x90,
    0xdc, 0x17, 0x9b, 0x62, 0x1b, 0x45, 0xf0, 0x66, 0x95, 0xd2, 0x7c, 0x6f, 0xc2, 0xea, 0x3b, 0xef,
    0x1f, 0xcf, 0xcb, 0xd6, 0xae, 0x27, 0xf1, 0xa9, 0xb0, 0xc8, 0xae, 0xfd, 0x7d, 0x7e, 0x9a, 0xfa,
    0x22, 0x04, 0xeb, 0xff, 0xd9, 0x7f, 0xea, 0x91, 0x2b, 0x22, 0xb1, 0x17, 0x0e, 0x8f, 0xf2, 0x8a,
    0x34, 0x5b, 0x58, 0xd8, 0xfc, 0x01, 0xc9, 0x54, 0xb9, 0xb8, 0x26, 0xcc, 0x8a, 0x88, 0x33, 0x89,
    0x4c, 0x2d, 0x84, 0x3c, 0x82, 0xdf, 0xee, 0x96, 0x57, 0x05, 0xba, 0x2c, 0xbb, 0xf7, 0xc4, 0xb7,
    0xc7, 0x4e, 0x3b, 0x82, 0xbe, 0x31, 0xc8, 0x22, 0x73, 0x73, 0x92, 0xd1, 0xc2, 0x80, 0xa4, 0x39,
    0x39, 0x10, 0x33, 0x23, 0x82, 0x4c, 0x3c, 0x9f, 0x86, 0xb2, 0x55, 0x98, 0x1d, 0xbe, 0x29, 0x86,
    0x8c, 0x22, 0x9b, 0x9e, 0xe2, 0x6b, 0x3b, 0x57, 0x3a, 0x82, 0x70, 0x4d, 0xdc, 0x09, 0xc7, 0x89,
    0xcb, 0x0a, 0x07, 0x4d, 0x6c, 0xe8, 0x5d, 0x8e, 0xc9, 0xef, 0xce, 0xab, 0xc7, 0xbb, 0xb5, 0x2b,
    0x4e, 0x45, 0xd6, 0x4a, 0xd0, 0x26, 0xcc, 0xe5, 0x72, 0xca, 0x08, 0x6a, 0xa5, 0x95, 0xe3, 0x15,
    0xa1, 0xf7, 0xa4, 0xed, 0xc9, 0x2c, 0x5f, 0xa5, 0xfb, 0xff, 0xac, 0x28, 0x02, 0x2e, 0xbe, 0xd7,
    0x7b, 0xbb, 0xe3, 0x71, 0x7b, 0x90, 0x16, 0xd3, 0x07, 0x5e, 0x46, 0x53, 0x7c, 0x37, 0x07, 0x42,
    0x8c, 0xd3, 0xc4, 0x96, 0x9c, 0xd5, 0x99, 0xb5, 0x2a, 0xe0, 0x95, 0x1a, 0x80, 0x48, 0xae, 0x4c,
    0x39, 0x07, 0xce, 0xcc, 0x47, 0xa4, 0x52, 0x95, 0x2b, 0xba, 0xb8, 0xfb, 0xad, 0xd2, 0x33, 0x53,
    0x7d, 0xe5, 0x1d, 0x4d, 0x6d, 0xd5, 0xa1, 0xb1, 0xc7, 0x42, 0x6f, 0xe6, 0x40, 0x27, 0x35, 0x5c,
    0xa3, 0x28, 0xb7, 0x07, 0x8d, 0xe7, 0x8d, 0x33, 0x90, 0xe7, 0x23, 0x9f, 0xfb, 0x50, 0x9c, 0x79,
    0x6c, 0x46, 0xd5, 0xb4, 0x15, 0xb3, 0x96, 0x6e, 0x7e, 0x9b, 0x0c, 0x96, 0x3a, 0xb8, 0x52, 0x2d,
    0x3f, 0xd6, 0x5b, 0xe1, 0xfb, 0x08, 0xc2, 0x84, 0xfe, 0x24, 0xa8, 0xa3, 0x89, 0xda, 0xac, 0x6a,
    0xe1, 0x18, 0x2a, 0xb1, 0xa8, 0x43, 0x61, 0x5b, 0xd3, 0x1f, 0xdc, 0x3b, 0x8d, 0x76, 0xf2, 0x2d,
    0xe8, 0x8d, 0x75, 0xdf, 0x17, 0x33, 0x6c, 0x3d, 0x53, 0xfb, 0x7b, 0xcb, 0x41, 0x5f, 0xff, 0xdc,
    0xa2, 0xd0, 0x61, 0x38, 0xe1, 0x96, 0xb8, 0xac, 0x5d, 0x8b, 0x37, 0xd7, 0x75, 0xd5, 0x33, 0xc0,
    0x99, 0x11, 0xae, 0x9d, 0x41, 0xc1, 0x72, 0x75, 0x84, 0xbe, 0x02, 0x41, 0x42, 0x5f, 0x67, 0x24,
    0x48, 0x94, 0xd1, 0x9b, 0x27, 0xbe, 0x07, 0x3f, 0xb9, 0xb8, 0x4f, 0x81, 0x74, 0x51, 0xe1, 0x7a,
    0xb7, 0xed, 0x9d, 0x23, 0xe2, 0xbe, 0xe0, 0xd5, 0x28, 0x04, 0x13, 0x3c, 0x31, 0x03, 0x9e, 0xdd,
    0x7a, 0x6c, 0x8f, 0xc6, 0x07, 0x18, 0xc6, 0x7f, 0xde, 0x47, 0x8e, 0x3f, 0x28, 0x9e, 0x04, 0x06,
    0xcf, 0xa5, 0x54, 0x34, 0x77, 0xbd, 0xec, 0x89, 0x9b, 0xe9, 0x17, 0x43, 0xdf, 0x5b, 0xdb, 0x5f,
    0xfe, 0x8e, 0x1e, 0x57, 0xa2, 0xcd, 0x40, 0x9d, 0x7e, 0x62, 0x22, 0xda, 0xde, 0x18, 0x27]

def testRootDer : List UInt8 := [
    0x30, 0x82, 0x03, 0x25, 0x30, 0x82, 0x02, 0x0d, 0xa0, 0x03, 0x02, 0x01, 0x02, 0x02, 0x14, 0x7b,
    0x48, 0x55, 0x89, 0xff, 0xe6, 0x13, 0x24, 0xd5, 0xdd, 0x84, 0x76, 0x35, 0x05, 0x9e, 0x94, 0xc4,
    0x5c, 0xf8, 0x68, 0x30, 0x0d, 0x06, 0x09, 0x2a, 0x86, 0x48, 0x86, 0xf7, 0x0d, 0x01, 0x01, 0x0b,
    0x05, 0x00, 0x30, 0x22, 0x31, 0x20, 0x30, 0x1e, 0x06, 0x03, 0x55, 0x04, 0x03, 0x0c, 0x17, 0x52,
    0x75, 0x73, 0x74, 0x79, 0x20, 0x50, 0x65, 0x6e, 0x67, 0x75, 0x69, 0x6e, 0x20, 0x54, 0x65, 0x73,
    0x74, 0x20, 0x52, 0x6f, 0x6f, 0x74, 0x30, 0x1e, 0x17, 0x0d, 0x32, 0x36, 0x30, 0x36, 0x30, 0x31,
    0x31, 0x36, 0x33, 0x35, 0x32, 0x32, 0x5a, 0x17, 0x0d, 0x33, 0x36, 0x30, 0x35, 0x32, 0x39, 0x31,
    0x36, 0x33, 0x35, 0x32, 0x32, 0x5a, 0x30, 0x22, 0x31, 0x20, 0x30, 0x1e, 0x06, 0x03, 0x55, 0x04,
    0x03, 0x0c, 0x17, 0x52, 0x75, 0x73, 0x74, 0x79, 0x20, 0x50, 0x65, 0x6e, 0x67, 0x75, 0x69, 0x6e,
    0x20, 0x54, 0x65, 0x73, 0x74, 0x20, 0x52, 0x6f, 0x6f, 0x74, 0x30, 0x82, 0x01, 0x22, 0x30, 0x0d,
    0x06, 0x09, 0x2a, 0x86, 0x48, 0x86, 0xf7, 0x0d, 0x01, 0x01, 0x01, 0x05, 0x00, 0x03, 0x82, 0x01,
    0x0f, 0x00, 0x30, 0x82, 0x01, 0x0a, 0x02, 0x82, 0x01, 0x01, 0x00, 0xa7, 0xf6, 0x90, 0x60, 0x57,
    0x93, 0xc9, 0x09, 0x10, 0x66, 0x1c, 0x16, 0xb6, 0xa4, 0xba, 0x53, 0x2d, 0xde, 0xd4, 0x5d, 0x70,
    0x2c, 0xc2, 0x44, 0xb8, 0x24, 0x25, 0x36, 0xac, 0x10, 0xaa, 0xec, 0x9c, 0x2c, 0x32, 0x94, 0xb3,
    0x25, 0xf2, 0xd9, 0xf8, 0x66, 0x13, 0x1a, 0x9f, 0xf9, 0xda, 0x42, 0xb2, 0xb0, 0x08, 0x47, 0x16,
    0x47, 0xb1, 0x50, 0xce, 0x2d, 0x37, 0x2a, 0xa4, 0x2f, 0x71, 0xbc, 0x4e, 0xc0, 0x8e, 0xf0, 0x4d,
    0x84, 0xad, 0x31, 0x1a, 0x6f, 0xae, 0xf9, 0xd6, 0x43, 0xef, 0x33, 0x00, 0xd4, 0x02, 0x63, 0xc4,
    0x7d, 0x4c, 0x49, 0x79, 0x5d, 0xa2, 0xc8, 0x12, 0x5f, 0x2c, 0x39, 0x32, 0x76, 0x69, 0xe8, 0x8f,
    0xaa, 0xf0, 0xb1, 0x31, 0x5f, 0xcb, 0x83, 0x5a, 0xfc, 0xdb, 0x71, 0x47, 0xad, 0x83, 0x7c, 0x00,
    0xa4, 0x39, 0x9b, 0xd4, 0x19, 0x24, 0x5b, 0x1d, 0xe1, 0x1f, 0xcb, 0xca, 0x6f, 0xb2, 0x73, 0x44,
    0x97, 0x0d, 0xb4, 0x22, 0x26, 0x77, 0x80, 0xf8, 0x61, 0x20, 0x84, 0xed, 0x46, 0x85, 0x72, 0x4e,
    0x61, 0x45, 0x5e, 0xbf, 0x32, 0x67, 0xb5, 0xe9, 0xcf, 0x91, 0x7a, 0x18, 0x89, 0x77, 0x72, 0xd0,
    0xb1, 0x61, 0x39, 0x04, 0xaf, 0x52, 0xe7, 0xd4, 0x00, 0x7c, 0xae, 0xb5, 0xc1, 0x39, 0xac, 0x04,
    0xd0, 0x06, 0xaa, 0xed, 0x95, 0x82, 0x66, 0xfe, 0x60, 0xcf, 0x8e, 0x4f, 0xba, 0x41, 0xcc, 0xf5,
    0xe9, 0x98, 0xac, 0xf3, 0xf0, 0xd2, 0x6b, 0x15, 0xc2, 0xf3, 0x19, 0xa2, 0xaf, 0x17, 0xdc, 0x45,
    0x9f, 0xf4, 0x74, 0x7a, 0x66, 0x62, 0x8e, 0x3d, 0xc0, 0xeb, 0x85, 0x2d, 0xdc, 0x5d, 0x02, 0x89,
    0x53, 0xf6, 0x92, 0xed, 0x13, 0x97, 0x6c, 0xe6, 0xae, 0x68, 0x53, 0x8f, 0x48, 0xdf, 0x7e, 0x27,
    0x89, 0x52, 0x00, 0xa3, 0xdc, 0x7f, 0xa8, 0x1b, 0xbd, 0x95, 0x89, 0x02, 0x03, 0x01, 0x00, 0x01,
    0xa3, 0x53, 0x30, 0x51, 0x30, 0x1d, 0x06, 0x03, 0x55, 0x1d, 0x0e, 0x04, 0x16, 0x04, 0x14, 0xd9,
    0xd2, 0xb7, 0x4c, 0xd4, 0xf9, 0x72, 0x63, 0xec, 0x3f, 0x1b, 0x5c, 0x16, 0x1b, 0xbe, 0x38, 0xd4,
    0x85, 0xa1, 0x06, 0x30, 0x1f, 0x06, 0x03, 0x55, 0x1d, 0x23, 0x04, 0x18, 0x30, 0x16, 0x80, 0x14,
    0xd9, 0xd2, 0xb7, 0x4c, 0xd4, 0xf9, 0x72, 0x63, 0xec, 0x3f, 0x1b, 0x5c, 0x16, 0x1b, 0xbe, 0x38,
    0xd4, 0x85, 0xa1, 0x06, 0x30, 0x0f, 0x06, 0x03, 0x55, 0x1d, 0x13, 0x01, 0x01, 0xff, 0x04, 0x05,
    0x30, 0x03, 0x01, 0x01, 0xff, 0x30, 0x0d, 0x06, 0x09, 0x2a, 0x86, 0x48, 0x86, 0xf7, 0x0d, 0x01,
    0x01, 0x0b, 0x05, 0x00, 0x03, 0x82, 0x01, 0x01, 0x00, 0x72, 0xa3, 0xd4, 0xb7, 0xdd, 0x47, 0xc6,
    0x8a, 0x1d, 0x98, 0x78, 0x0c, 0x59, 0xe9, 0x78, 0xa4, 0x30, 0xd4, 0x8d, 0x53, 0xd1, 0xd7, 0x60,
    0x79, 0xec, 0xdc, 0xf6, 0xe5, 0xe3, 0xf4, 0xf4, 0xa5, 0x09, 0xdc, 0x30, 0x06, 0xa3, 0xd4, 0x1f,
    0x51, 0x35, 0x1f, 0xcd, 0xa1, 0xd7, 0x29, 0x21, 0xdd, 0x36, 0xf1, 0x0d, 0xe6, 0xcb, 0x28, 0x5f,
    0x4e, 0x65, 0xdb, 0xbc, 0x03, 0xf2, 0x68, 0xf2, 0xbd, 0xd9, 0x29, 0x6c, 0x2e, 0xa5, 0x8a, 0x64,
    0xe8, 0xb9, 0x17, 0x96, 0x08, 0x39, 0x83, 0x38, 0xe0, 0x8c, 0x1b, 0x78, 0x3f, 0xce, 0xfb, 0x82,
    0x63, 0x93, 0xe0, 0x10, 0x59, 0x8c, 0x8c, 0x35, 0x14, 0xb5, 0x67, 0xf7, 0xd1, 0x4e, 0xe6, 0x5e,
    0x85, 0x95, 0xa2, 0x45, 0x36, 0x38, 0x14, 0x02, 0x4e, 0x7c, 0x79, 0x70, 0x5f, 0x33, 0x04, 0x98,
    0x33, 0x3f, 0x58, 0x6f, 0x4f, 0x74, 0xbc, 0x20, 0xb7, 0xbf, 0xbd, 0x17, 0xb5, 0x77, 0xf8, 0x94,
    0x3e, 0xdc, 0x87, 0xbd, 0x69, 0xc4, 0x8e, 0xe4, 0x7b, 0xc9, 0x10, 0x63, 0xad, 0xfa, 0xf6, 0xe3,
    0x3b, 0x96, 0xb1, 0x2f, 0x56, 0xa1, 0xaf, 0xb9, 0xe6, 0x11, 0x1e, 0xcf, 0xef, 0x19, 0x65, 0xaf,
    0xc5, 0x7a, 0x8c, 0x4e, 0xb2, 0xd5, 0x14, 0x05, 0xac, 0x1a, 0x35, 0xf5, 0x84, 0xee, 0x0a, 0xd8,
    0x35, 0x88, 0x79, 0xf3, 0xcd, 0x07, 0x02, 0xdc, 0xcb, 0xa3, 0x75, 0x8f, 0x94, 0x46, 0x83, 0x46,
    0x6d, 0xb7, 0x39, 0x16, 0xea, 0xa2, 0xa8, 0x4b, 0xe3, 0xc1, 0x03, 0x6f, 0x7c, 0x07, 0xaf, 0x35,
    0x89, 0x0b, 0xa6, 0x04, 0x4b, 0x9e, 0x58, 0x0f, 0xb6, 0x5b, 0xc1, 0x71, 0xe3, 0x92, 0xf4, 0x1f,
    0x5d, 0x01, 0x9e, 0xa6, 0x27, 0xf2, 0x8e, 0x60, 0x02, 0x7a, 0x3a, 0xdb, 0x18, 0x1b, 0x2c, 0xbf,
    0x5b, 0xa9, 0x07, 0xfa, 0x03, 0xf1, 0x87, 0x17, 0x2a]

def testIntDer : List UInt8 := [
    0x30, 0x82, 0x03, 0x37, 0x30, 0x82, 0x02, 0x1f, 0xa0, 0x03, 0x02, 0x01, 0x02, 0x02, 0x14, 0x42,
    0xe1, 0x68, 0xf1, 0x65, 0x35, 0x76, 0x07, 0xb9, 0x42, 0xea, 0xaa, 0x79, 0x10, 0xa0, 0x05, 0xcc,
    0x90, 0xd2, 0xd0, 0x30, 0x0d, 0x06, 0x09, 0x2a, 0x86, 0x48, 0x86, 0xf7, 0x0d, 0x01, 0x01, 0x0b,
    0x05, 0x00, 0x30, 0x22, 0x31, 0x20, 0x30, 0x1e, 0x06, 0x03, 0x55, 0x04, 0x03, 0x0c, 0x17, 0x52,
    0x75, 0x73, 0x74, 0x79, 0x20, 0x50, 0x65, 0x6e, 0x67, 0x75, 0x69, 0x6e, 0x20, 0x54, 0x65, 0x73,
    0x74, 0x20, 0x52, 0x6f, 0x6f, 0x74, 0x30, 0x1e, 0x17, 0x0d, 0x32, 0x36, 0x30, 0x36, 0x30, 0x31,
    0x31, 0x36, 0x33, 0x35, 0x32, 0x32, 0x5a, 0x17, 0x0d, 0x33, 0x31, 0x30, 0x35, 0x33, 0x31, 0x31,
    0x36, 0x33, 0x35, 0x32, 0x32, 0x5a, 0x30, 0x2a, 0x31, 0x28, 0x30, 0x26, 0x06, 0x03, 0x55, 0x04,
    0x03, 0x0c, 0x1f, 0x52, 0x75, 0x73, 0x74, 0x79, 0x20, 0x50, 0x65, 0x6e, 0x67, 0x75, 0x69, 0x6e,
    0x20, 0x54, 0x65, 0x73, 0x74, 0x20, 0x49, 0x6e, 0x74, 0x65, 0x72, 0x6d, 0x65, 0x64, 0x69, 0x61,
    0x74, 0x65, 0x30, 0x82, 0x01, 0x22, 0x30, 0x0d, 0x06, 0x09, 0x2a, 0x86, 0x48, 0x86, 0xf7, 0x0d,
    0x01, 0x01, 0x01, 0x05, 0x00, 0x03, 0x82, 0x01, 0x0f, 0x00, 0x30, 0x82, 0x01, 0x0a, 0x02, 0x82,
    0x01, 0x01, 0x00, 0xc3, 0x9f, 0x51, 0x54, 0xa6, 0x9f, 0xde, 0x6b, 0x8f, 0x30, 0x75, 0x9f, 0x25,
    0x02, 0x96, 0x83, 0xfb, 0x2e, 0x63, 0xd3, 0x86, 0x7e, 0x1b, 0x6f, 0x13, 0xe5, 0x3a, 0x50, 0x62,
    0x80, 0x53, 0x0a, 0x36, 0xc2, 0xe6, 0x44, 0xa9, 0x81, 0x90, 0xe6, 0xaa, 0x88, 0x80, 0xd9, 0x35,
    0x33, 0x7c, 0x99, 0x32, 0x4b, 0xbd, 0x72, 0x96, 0x6b, 0x10, 0xee, 0xb0, 0x3b, 0xc4, 0x1a, 0x66,
    0x74, 0xd4, 0xe4, 0x9d, 0x0b, 0xab, 0x5d, 0x03, 0xbb, 0xba, 0xf1, 0xcb, 0xe6, 0x7e, 0x5e, 0xa9,
    0xcf, 0x17, 0x0f, 0xfa, 0x52, 0x79, 0xed, 0x5f, 0x79, 0xf7, 0x95, 0x5a, 0x5e, 0xee, 0xf6, 0x9b,
    0x81, 0x21, 0x24, 0x4c, 0xe9, 0x66, 0x5a, 0xd7, 0x35, 0x79, 0x85, 0xc8, 0xba, 0x22, 0x5d, 0x8e,
    0x0e, 0x25, 0x64, 0x9c, 0x50, 0xd7, 0x3a, 0x3b, 0xcb, 0x15, 0x8b, 0xb2, 0x30, 0xa7, 0x29, 0xad,
    0x29, 0x3e, 0xde, 0x14, 0x9b, 0x94, 0xa6, 0x11, 0x04, 0x56, 0x76, 0x2a, 0x38, 0x08, 0xff, 0xa5,
    0x9b, 0x18, 0xab, 0x4b, 0x35, 0x0b, 0x53, 0x4f, 0x74, 0x1f, 0x5e, 0x08, 0x3c, 0x80, 0x27, 0x5e,
    0x79, 0xe6, 0xe2, 0xeb, 0x14, 0x7c, 0x06, 0xda, 0x65, 0xe5, 0xea, 0x2f, 0x1a, 0xce, 0x17, 0x53,
    0x39, 0x5b, 0x19, 0x56, 0xef, 0xa4, 0x4e, 0x31, 0x46, 0x3d, 0xd2, 0x0a, 0x04, 0x0d, 0x39, 0x83,
    0xfc, 0x29, 0x28, 0xc5, 0x59, 0xd4, 0x57, 0x72, 0x6f, 0x5e, 0x0d, 0x59, 0x53, 0xdd, 0x08, 0x9c,
    0xdf, 0x3b, 0x53, 0x8a, 0x71, 0xe2, 0xcb, 0x6f, 0x42, 0x42, 0x02, 0xfb, 0xac, 0x82, 0x42, 0xc0,
    0xb1, 0x4a, 0x48, 0x80, 0x53, 0x29, 0x46, 0x10, 0x2a, 0x63, 0x63, 0x08, 0xac, 0x09, 0x48, 0x1d,
    0xc1, 0xed, 0x87, 0xfd, 0x96, 0x84, 0x36, 0x4b, 0x40, 0x10, 0x03, 0xb6, 0xa4, 0x32, 0xdf, 0x55,
    0xe1, 0x2c, 0x7f, 0x02, 0x03, 0x01, 0x00, 0x01, 0xa3, 0x5d, 0x30, 0x5b, 0x30, 0x0c, 0x06, 0x03,
    0x55, 0x1d, 0x13, 0x04, 0x05, 0x30, 0x03, 0x01, 0x01, 0xff, 0x30, 0x0b, 0x06, 0x03, 0x55, 0x1d,
    0x0f, 0x04, 0x04, 0x03, 0x02, 0x01, 0x06, 0x30, 0x1d, 0x06, 0x03, 0x55, 0x1d, 0x0e, 0x04, 0x16,
    0x04, 0x14, 0x4c, 0xee, 0x5e, 0x48, 0x6a, 0x98, 0xab, 0x59, 0x9b, 0x25, 0x28, 0xa5, 0xab, 0x43,
    0x78, 0x5f, 0x40, 0x85, 0x68, 0x73, 0x30, 0x1f, 0x06, 0x03, 0x55, 0x1d, 0x23, 0x04, 0x18, 0x30,
    0x16, 0x80, 0x14, 0xd9, 0xd2, 0xb7, 0x4c, 0xd4, 0xf9, 0x72, 0x63, 0xec, 0x3f, 0x1b, 0x5c, 0x16,
    0x1b, 0xbe, 0x38, 0xd4, 0x85, 0xa1, 0x06, 0x30, 0x0d, 0x06, 0x09, 0x2a, 0x86, 0x48, 0x86, 0xf7,
    0x0d, 0x01, 0x01, 0x0b, 0x05, 0x00, 0x03, 0x82, 0x01, 0x01, 0x00, 0x1a, 0x4e, 0x49, 0xa8, 0x1d,
    0xe8, 0x6e, 0x81, 0xed, 0x7e, 0x53, 0x7d, 0x44, 0x12, 0xdc, 0xa4, 0x3a, 0x79, 0xa8, 0xfb, 0x51,
    0xb9, 0xac, 0x60, 0x80, 0xc5, 0xa6, 0x8a, 0x27, 0x9f, 0xdd, 0xf6, 0xec, 0xab, 0x99, 0xb1, 0x9f,
    0xce, 0xe1, 0x48, 0x6f, 0xb1, 0xa8, 0x49, 0xa7, 0xa6, 0x78, 0xf5, 0x4b, 0x65, 0xc8, 0x17, 0xf5,
    0xc5, 0x3e, 0xf3, 0x7f, 0x60, 0xd4, 0x03, 0x9a, 0x73, 0xd9, 0xfe, 0x1c, 0xd0, 0x4f, 0x11, 0x1b,
    0xe0, 0x71, 0x3c, 0x50, 0x29, 0x07, 0x6a, 0x23, 0xef, 0x02, 0xaf, 0x21, 0x67, 0x33, 0xdb, 0x0e,
    0x85, 0xbd, 0x4f, 0x9b, 0xe5, 0xdb, 0xfc, 0xc3, 0xe8, 0xff, 0x04, 0x30, 0x59, 0xaa, 0xbb, 0x90,
    0x7d, 0xcf, 0xe1, 0x81, 0x57, 0x39, 0xe0, 0x6c, 0x3b, 0x36, 0xf1, 0x65, 0xad, 0x0d, 0xa0, 0xda,
    0x36, 0x81, 0x53, 0x69, 0x2c, 0xea, 0xbd, 0x3c, 0xda, 0x09, 0xa4, 0xd5, 0x4a, 0x72, 0x02, 0x68,
    0xe5, 0x6a, 0x6b, 0x92, 0x75, 0x07, 0x11, 0xc5, 0x0f, 0xa9, 0xa4, 0xd2, 0x62, 0xce, 0x10, 0x05,
    0x9a, 0x7a, 0xb7, 0x14, 0x01, 0x5d, 0x96, 0x44, 0x31, 0x06, 0x65, 0x3c, 0x0b, 0x7a, 0xc7, 0x84,
    0x2d, 0xda, 0x07, 0x5a, 0xe7, 0xd5, 0xc3, 0xe6, 0x5e, 0x48, 0x36, 0xd8, 0xfb, 0xeb, 0xe0, 0xbd,
    0x4c, 0xdf, 0x09, 0xab, 0x8a, 0x57, 0x7f, 0xea, 0x67, 0xba, 0xbf, 0x97, 0xe3, 0x63, 0xad, 0xbf,
    0x00, 0x7e, 0xfa, 0x3b, 0xdd, 0x4e, 0xc4, 0xc1, 0x8a, 0x6a, 0x6c, 0x4e, 0x0a, 0x67, 0x7a, 0x99,
    0xd3, 0xfc, 0x7e, 0xa5, 0x80, 0x50, 0x42, 0xcf, 0x60, 0x4f, 0xdd, 0x05, 0xbe, 0x8b, 0xb2, 0x41,
    0x2c, 0xa0, 0xeb, 0x2d, 0xf8, 0xcc, 0x5b, 0x37, 0xd8, 0x97, 0x1a, 0x1e, 0xed, 0x67, 0x7c, 0xdf,
    0xed, 0x40, 0xb4, 0x5e, 0x6d, 0xa1, 0x9f, 0x02, 0x5c, 0x7e, 0x68]

def testLeafDer : List UInt8 := [
    0x30, 0x82, 0x03, 0x34, 0x30, 0x82, 0x02, 0x1c, 0xa0, 0x03, 0x02, 0x01, 0x02, 0x02, 0x14, 0x51,
    0x6e, 0xbf, 0xfd, 0xa7, 0x85, 0x29, 0xd8, 0x79, 0xfa, 0xe4, 0x46, 0x13, 0xdf, 0x1b, 0x4e, 0xb2,
    0x1d, 0x73, 0xac, 0x30, 0x0d, 0x06, 0x09, 0x2a, 0x86, 0x48, 0x86, 0xf7, 0x0d, 0x01, 0x01, 0x0b,
    0x05, 0x00, 0x30, 0x2a, 0x31, 0x28, 0x30, 0x26, 0x06, 0x03, 0x55, 0x04, 0x03, 0x0c, 0x1f, 0x52,
    0x75, 0x73, 0x74, 0x79, 0x20, 0x50, 0x65, 0x6e, 0x67, 0x75, 0x69, 0x6e, 0x20, 0x54, 0x65, 0x73,
    0x74, 0x20, 0x49, 0x6e, 0x74, 0x65, 0x72, 0x6d, 0x65, 0x64, 0x69, 0x61, 0x74, 0x65, 0x30, 0x1e,
    0x17, 0x0d, 0x32, 0x36, 0x30, 0x36, 0x30, 0x31, 0x31, 0x36, 0x33, 0x35, 0x32, 0x32, 0x5a, 0x17,
    0x0d, 0x32, 0x38, 0x30, 0x39, 0x30, 0x33, 0x31, 0x36, 0x33, 0x35, 0x32, 0x32, 0x5a, 0x30, 0x1c,
    0x31, 0x1a, 0x30, 0x18, 0x06, 0x03, 0x55, 0x04, 0x03, 0x0c, 0x11, 0x74, 0x65, 0x73, 0x74, 0x2e,
    0x72, 0x75, 0x73, 0x74, 0x79, 0x70, 0x65, 0x6e, 0x67, 0x75, 0x69, 0x6e, 0x30, 0x82, 0x01, 0x22,
    0x30, 0x0d, 0x06, 0x09, 0x2a, 0x86, 0x48, 0x86, 0xf7, 0x0d, 0x01, 0x01, 0x01, 0x05, 0x00, 0x03,
    0x82, 0x01, 0x0f, 0x00, 0x30, 0x82, 0x01, 0x0a, 0x02, 0x82, 0x01, 0x01, 0x00, 0xd9, 0x29, 0x03,
    0xd4, 0x93, 0x6f, 0xc5, 0x57, 0x0c, 0x04, 0x8e, 0x68, 0xf5, 0x71, 0x8d, 0x2a, 0x4d, 0x13, 0x59,
    0x79, 0x04, 0x1b, 0xf9, 0xe2, 0x3b, 0x09, 0x49, 0x57, 0x92, 0x50, 0x19, 0x9c, 0xf5, 0x98, 0x3c,
    0x2b, 0x38, 0x1e, 0x53, 0xa8, 0x1b, 0xb0, 0xcf, 0xc7, 0xa1, 0x2f, 0x90, 0x72, 0x03, 0x92, 0xff,
    0xe7, 0x34, 0x47, 0x66, 0x93, 0x63, 0x16, 0x0f, 0x33, 0x75, 0xf2, 0x57, 0xed, 0x6a, 0x97, 0x86,
    0x9c, 0x16, 0x66, 0x03, 0xab, 0x90, 0x58, 0xf4, 0x16, 0xda, 0xb7, 0x26, 0x05, 0xe7, 0xe7, 0xe6,
    0x4a, 0xa2, 0xe2, 0x57, 0xb9, 0x69, 0x56, 0xa7, 0x4a, 0x18, 0x06, 0x86, 0x15, 0xb3, 0x57, 0x73,
    0x48, 0xc0, 0x25, 0xba, 0x01, 0xbc, 0xe8, 0x67, 0xdd, 0x1b, 0x91, 0x5c, 0x0a, 0x4c, 0x72, 0xef,
    0x62, 0xc2, 0x98, 0xff, 0x73, 0xee, 0x40, 0xbc, 0xff, 0x81, 0xcd, 0x9d, 0x48, 0x5d, 0x6c, 0xbd,
    0x71, 0xdf, 0x6d, 0x89, 0x40, 0xaa, 0x0c, 0x93, 0xf2, 0x6b, 0xde, 0x83, 0x7d, 0x00, 0x2e, 0x6c,
    0x1a, 0x8a, 0x56, 0xa8, 0x9d, 0x2f, 0xd5, 0x7f, 0x5f, 0x41, 0x07, 0x62, 0xfa, 0x80, 0xcd, 0x24,
    0x3f, 0x74, 0x67, 0x3b, 0x8e, 0xd7, 0x59, 0x75, 0x30, 0xfb, 0x4f, 0x84, 0x1f, 0xb7, 0x6f, 0xd9,
    0x40, 0x8b, 0x03, 0x1c, 0xab, 0x48, 0x61, 0x85, 0xbd, 0x65, 0xeb, 0xd4, 0x68, 0x98, 0xc0, 0x79,
    0xc0, 0xce, 0x82, 0x91, 0xd7, 0xf2, 0xff, 0xca, 0x08, 0x42, 0xd9, 0x6f, 0xc4, 0xbe, 0x99, 0x77,
    0x54, 0xcc, 0xbc, 0x6c, 0xe0, 0x38, 0x46, 0xc2, 0x3a, 0xdd, 0x3a, 0x86, 0x0a, 0xa0, 0x70, 0x65,
    0x4f, 0x51, 0x29, 0xfc, 0x59, 0xc4, 0xd1, 0x04, 0xf7, 0x2c, 0x49, 0xe4, 0x90, 0x22, 0x5f, 0x9c,
    0xad, 0xf1, 0x94, 0xe7, 0x41, 0x0c, 0xb0, 0xde, 0xfd, 0xfb, 0x25, 0xbe, 0xdb, 0x02, 0x03, 0x01,
    0x00, 0x01, 0xa3, 0x60, 0x30, 0x5e, 0x30, 0x1c, 0x06, 0x03, 0x55, 0x1d, 0x11, 0x04, 0x15, 0x30,
    0x13, 0x82, 0x11, 0x74, 0x65, 0x73, 0x74, 0x2e, 0x72, 0x75, 0x73, 0x74, 0x79, 0x70, 0x65, 0x6e,
    0x67, 0x75, 0x69, 0x6e, 0x30, 0x1d, 0x06, 0x03, 0x55, 0x1d, 0x0e, 0x04, 0x16, 0x04, 0x14, 0x6f,
    0x5a, 0x38, 0xa9, 0x51, 0x3d, 0x79, 0xe7, 0x3b, 0x22, 0x12, 0x1b, 0xc3, 0xdb, 0xc6, 0xfc, 0xb6,
    0x8e, 0x87, 0x87, 0x30, 0x1f, 0x06, 0x03, 0x55, 0x1d, 0x23, 0x04, 0x18, 0x30, 0x16, 0x80, 0x14,
    0x4c, 0xee, 0x5e, 0x48, 0x6a, 0x98, 0xab, 0x59, 0x9b, 0x25, 0x28, 0xa5, 0xab, 0x43, 0x78, 0x5f,
    0x40, 0x85, 0x68, 0x73, 0x30, 0x0d, 0x06, 0x09, 0x2a, 0x86, 0x48, 0x86, 0xf7, 0x0d, 0x01, 0x01,
    0x0b, 0x05, 0x00, 0x03, 0x82, 0x01, 0x01, 0x00, 0xbf, 0xb1, 0x04, 0xe7, 0x7f, 0xb2, 0x93, 0x70,
    0x17, 0xa4, 0x5d, 0xfa, 0x40, 0xe6, 0xb6, 0xea, 0x4a, 0xdb, 0x38, 0x7d, 0xf1, 0x4f, 0x7d, 0x45,
    0x61, 0x0d, 0x5b, 0x88, 0x4c, 0x58, 0x1e, 0x67, 0xef, 0xaa, 0x4d, 0xa8, 0x01, 0x37, 0x89, 0x7f,
    0x99, 0x3e, 0xb4, 0xb8, 0x43, 0xe1, 0xed, 0xcb, 0x11, 0x53, 0x02, 0xfa, 0x98, 0xdb, 0x27, 0x2c,
    0x07, 0xc8, 0x44, 0x03, 0x44, 0x01, 0xe7, 0x45, 0x6a, 0x20, 0xa7, 0xca, 0x85, 0xa1, 0xf0, 0xa5,
    0x6c, 0x98, 0x63, 0xdd, 0x63, 0x48, 0xae, 0x0a, 0x36, 0x9f, 0xca, 0x63, 0xa0, 0x1d, 0x48, 0xee,
    0x7e, 0xf7, 0x0b, 0x82, 0x95, 0xa2, 0x63, 0x09, 0xa0, 0xac, 0xe7, 0x36, 0xba, 0x98, 0x82, 0xaa,
    0x3e, 0xc5, 0xda, 0xe5, 0x9e, 0xac, 0xad, 0x73, 0xd8, 0x56, 0x64, 0x8a, 0x95, 0x52, 0xa3, 0x6f,
    0x1c, 0x64, 0xcc, 0x5c, 0x9c, 0x46, 0x74, 0xdd, 0xa9, 0x50, 0x5b, 0xb5, 0xd3, 0xca, 0xac, 0x29,
    0xe6, 0x0f, 0x55, 0x5c, 0xa8, 0xd7, 0x0d, 0xa0, 0x8d, 0xe0, 0x72, 0xfe, 0x2c, 0x90, 0xb2, 0x47,
    0x76, 0x1f, 0xcf, 0xf0, 0x6b, 0x60, 0x26, 0x45, 0x0b, 0xbd, 0xd6, 0x79, 0xd8, 0x2d, 0x27, 0x74,
    0x6c, 0xd1, 0x4c, 0x93, 0x3e, 0x99, 0xe1, 0x18, 0xfa, 0x8d, 0xdd, 0x97, 0x00, 0xb3, 0x9f, 0xbb,
    0x63, 0x7c, 0xbf, 0x43, 0x6b, 0x89, 0xe2, 0x45, 0xdc, 0x6d, 0xd1, 0xd6, 0x6f, 0x77, 0xd7, 0x15,
    0x6a, 0x34, 0x42, 0xa8, 0xcd, 0xb5, 0x1b, 0x30, 0xe7, 0x5b, 0x9b, 0xe2, 0x8f, 0xd8, 0x4e, 0xfd,
    0xad, 0x5e, 0xe4, 0xfb, 0xc1, 0x8f, 0x9a, 0xbb, 0x71, 0x2a, 0x53, 0x74, 0xc1, 0x2f, 0xf3, 0x20,
    0x95, 0x09, 0x20, 0x03, 0x4a, 0x3f, 0xd8, 0x10, 0xcc, 0x05, 0x16, 0x3b, 0x67, 0x76, 0x7b, 0x32,
    0x8a, 0xbb, 0x9f, 0x13, 0x78, 0x72, 0x0f, 0xed]

/-- The embedded trust anchors. -/
def trustAnchors : List (List UInt8) := [gtsRootR1, isrgRootX1, testRootDer]

end RustyPenguin.X509
